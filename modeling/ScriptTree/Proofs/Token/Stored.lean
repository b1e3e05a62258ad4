import ScriptTree.Proofs.Lexer.Scan
import ScriptTree.Proofs.Token.Draft

namespace ScriptTree

mutual

/-- A stream with the list of tokens that it was made for. -/
inductive TokenStream.Stored : TokenStream → List Token → Prop
  | lexed (s : Text) : TokenStream.Stored (.ofList (Lexer.tokens s)) (Lexer.tokens s)
  | finish {d : Draft} {ts : List Token} : Draft.Made d ts → TokenStream.Stored d.finish ts

/-- A draft with the list of tokens that was put into it. A new token, and the first of those that
are taken over from a stream, stand where the list ends; and a new token is one that a lexer can make:
it has a text, and nothing before it was looked at last. -/
inductive Draft.Made : Draft → List Token → Prop
  | empty : Draft.Made .empty []
  | push {d : Draft} {ts : List Token} {t : Token} : Draft.Made d ts →
      t.start = Token.endOf ts → t.text ≠ [] → t.start ≤ t.lookahead →
      Draft.Made (d.push t) (ts ++ [t])
  | copyInto {d : Draft} {ts us : List Token} {s : TokenStream} (i : Nat) (bound : Option Nat)
      (delta : Int) {copied : List Token} : Draft.Made d ts → TokenStream.Stored s us →
      copied = (us.drop i).take ((s.copyInto i bound delta d).2 - i) →
      (∀ t ∈ copied.head?, (t.start : Int) + delta = Token.endOf ts) →
      Draft.Made (s.copyInto i bound delta d).1 (ts ++ copied.map (Token.moved · delta))

end

/-- The tokens of a text stand one after another. -/
theorem Lexer.contiguous_scan (s : Text) (n : Nat) : Token.Contiguous n (scan s n) := by
  fun_induction scan s n with
  | case1 => trivial
  | case2 n c r l ih => exact ⟨rfl, lexeme_text_ne_nil c r, ih⟩

namespace Token.Contiguous

/-- Tokens from the middle of others, moved to where a list ends, continue the list. -/
theorem append_moved {n : Nat} {ts us behind : List Token} {i : Nat} {d : Int} {copied : List Token}
    (h : Contiguous 0 ts) (hu : Contiguous n us) (hfront : copied ++ behind = us.drop i)
    (hd : ∀ t ∈ copied.head?, (t.start : Int) + d = endOf ts) :
    Contiguous 0 (ts ++ copied.map (Token.moved · d)) ∧
      ∀ t ∈ copied, 0 ≤ (t.start : Int) + d := by
  rw [← List.take_append_drop i us, ← hfront] at hu
  obtain ⟨hcopied, -⟩ := append_iff.1 (append_iff.1 hu).2
  generalize ((us.take i).getLast?.map stop).getD n = k at hcopied
  rw [append_iff]
  cases copied with
  | nil => exact ⟨⟨h, trivial⟩, nofun⟩
  | cons t copied =>
    -- The first token tells by how much all of them have moved.
    have hk : (k : Int) + d = endOf ts := hcopied.1 ▸ hd t rfl
    have hmoved := hcopied.moved (d := d) (by omega)
    have hend : shift k d = endOf ts := by
      rw [shift, hk]
      rfl
    rw [hend] at hmoved
    refine ⟨⟨h, hmoved⟩, fun u hu => ?_⟩
    have := (hcopied.bounds_of_mem hu).1
    omega

end Token.Contiguous

mutual

/-- A stored stream stands for its list, in which the tokens stand one after another. -/
theorem TokenStream.Stored.invariant {s : TokenStream} {ts : List Token} (h : s.Stored ts) :
    s.flat = ts ∧ s.Sound ∧ Token.Contiguous 0 ts :=
  match h with
  | .lexed s =>
    ⟨TokenStream.flat_ofList _,
      TokenStream.ofList_sound fun _ ht => (Lexer.bounds_of_mem_scan ht).2,
      Lexer.contiguous_scan s 0⟩
  | .finish h =>
    have ⟨hflat, hsound, hc⟩ := h.invariant
    ⟨(Draft.flat_finish _).trans hflat, hsound.finish, hc⟩

theorem Draft.Made.invariant {d : Draft} {ts : List Token} (h : d.Made ts) :
    d.flat = ts ∧ d.Sound ∧ Token.Contiguous 0 ts :=
  match h with
  | .empty => ⟨rfl, Draft.empty_sound, trivial⟩
  | .push h hstart htext hlook => by
    obtain ⟨hflat, hsound, hc⟩ := h.invariant
    refine ⟨by rw [Draft.flat_push, hflat], hsound.push hlook, ?_⟩
    exact Token.Contiguous.append_iff.2 ⟨hc, hstart, htext, trivial⟩
  | .copyInto _ _ _ h hs hcopied hstart => by
    obtain ⟨hflat, hsound, hc⟩ := h.invariant
    obtain ⟨rfl, hsound', hc'⟩ := hs.invariant
    obtain ⟨us, hus⟩ := hsound'.copyInto_copied _ _ _ _
    rw [hus.take_eq] at hcopied
    subst hcopied
    obtain ⟨behind, hbehind⟩ := hus.front
    obtain ⟨hmoved, hplaced⟩ := hc.append_moved hc' hbehind hstart
    exact ⟨by rw [hus.flat, hflat], hus.sound hsound hplaced, hmoved⟩

end

theorem TokenStream.Stored.toList_eq {s : TokenStream} {ts : List Token} (h : s.Stored ts) :
    s.toList = ts := by
  rw [TokenStream.toList_eq, h.invariant.1]

/-- Tokens that continue the list are pushed one after another. -/
theorem Draft.Made.pushAll {d : Draft} {ts us : List Token} (h : d.Made ts)
    (hc : Token.Contiguous (Token.endOf ts) us) (hlook : ∀ u ∈ us, u.start ≤ u.lookahead) :
    (d.pushAll us).Made (ts ++ us) := by
  induction us generalizing d ts with
  | nil => rwa [List.append_nil]
  | cons u us ih =>
    obtain ⟨hstart, htext, hrest⟩ := hc
    have hpush := h.push hstart htext (hlook u List.mem_cons_self)
    have hend : Token.endOf (ts ++ [u]) = u.stop := by
      rw [Token.endOf, List.getLast?_concat]
      rfl
    have hmore := ih hpush (hend ▸ hrest) fun v hv => hlook v (List.mem_cons_of_mem u hv)
    rwa [List.append_assoc, List.singleton_append] at hmore

namespace TokenStream

end TokenStream

end ScriptTree
