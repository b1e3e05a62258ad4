import ScriptTree.Text.Basic

namespace ScriptTree

inductive TimeUnit
  | second | minute | hour | day | businessDay | week | monthEnd | monthStart | businessMonthEnd
  | businessMonthStart | quarterEnd | quarterStart | businessQuarterEnd | businessQuarterStart
  | yearEnd | yearStart
  deriving DecidableEq, Repr

namespace TimeUnit

def all : List TimeUnit :=
  [.second, .minute, .hour, .day, .businessDay, .week, .monthEnd, .monthStart, .businessMonthEnd,
   .businessMonthStart, .quarterEnd, .quarterStart, .businessQuarterEnd, .businessQuarterStart,
   .yearEnd, .yearStart]

def name : TimeUnit → String
  | .second => "Second"
  | .minute => "Minute"
  | .hour => "Hour"
  | .day => "Day"
  | .businessDay => "BusinessDay"
  | .week => "Week"
  | .monthEnd => "MonthEnd"
  | .monthStart => "MonthStart"
  | .businessMonthEnd => "BusinessMonthEnd"
  | .businessMonthStart => "BusinessMonthStart"
  | .quarterEnd => "QuarterEnd"
  | .quarterStart => "QuarterStart"
  | .businessQuarterEnd => "BusinessQuarterEnd"
  | .businessQuarterStart => "BusinessQuarterStart"
  | .yearEnd => "YearEnd"
  | .yearStart => "YearStart"

def suffix : TimeUnit → Text
  | .second => "S".toList
  | .minute => "Min".toList
  | .hour => "H".toList
  | .day => "D".toList
  | .businessDay => "B".toList
  | .week => "W".toList
  | .monthEnd => "ME".toList
  | .monthStart => "MS".toList
  | .businessMonthEnd => "BME".toList
  | .businessMonthStart => "BMS".toList
  | .quarterEnd => "QE".toList
  | .quarterStart => "QS".toList
  | .businessQuarterEnd => "BQE".toList
  | .businessQuarterStart => "BQS".toList
  | .yearEnd => "YE".toList
  | .yearStart => "YS".toList

def ofSuffix? (s : Text) : Option TimeUnit := all.find? (·.suffix == s)

theorem ofSuffix?_suffix (u : TimeUnit) : ofSuffix? u.suffix = some u := by cases u <;> decide

theorem suffix_of_ofSuffix? {s : Text} {u : TimeUnit} (h : ofSuffix? s = some u) : u.suffix = s := by
  simpa using List.find?_some h

end TimeUnit

inductive Anchor
  | monday | tuesday | wednesday | thursday | friday | saturday | sunday | january | february
  | march | april | may | june | july | august | september | october | november | december
  deriving DecidableEq, Repr

namespace Anchor

def all : List Anchor :=
  [.monday, .tuesday, .wednesday, .thursday, .friday, .saturday, .sunday, .january, .february,
   .march, .april, .may, .june, .july, .august, .september, .october, .november, .december]

def word : Anchor → Text
  | .monday => "MON".toList
  | .tuesday => "TUE".toList
  | .wednesday => "WED".toList
  | .thursday => "THU".toList
  | .friday => "FRI".toList
  | .saturday => "SAT".toList
  | .sunday => "SUN".toList
  | .january => "JAN".toList
  | .february => "FEB".toList
  | .march => "MAR".toList
  | .april => "APR".toList
  | .may => "MAY".toList
  | .june => "JUN".toList
  | .july => "JUL".toList
  | .august => "AUG".toList
  | .september => "SEP".toList
  | .october => "OCT".toList
  | .november => "NOV".toList
  | .december => "DEC".toList

def ofWord? (s : Text) : Option Anchor := all.find? (·.word == s)

theorem ofWord?_word (a : Anchor) : ofWord? a.word = some a := by cases a <;> decide

theorem word_of_ofWord? {s : Text} {a : Anchor} (h : ofWord? s = some a) : a.word = s := by
  simpa using List.find?_some h

end Anchor

/-- The word after an anchor that selects its last occurrence. -/
def lastWord : Text := "Last".toList

end ScriptTree
