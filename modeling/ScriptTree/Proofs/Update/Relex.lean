import ScriptTree.Proofs.Edit.Alignment
import ScriptTree.Proofs.Lexer.Scan
import ScriptTree.Proofs.Token.Stored
import ScriptTree.Update.Relex

/-!
Taking tokens over and lexing past changes gives the tokens that the changed text has by itself.
Three facts carry this: tokens that look no further than the next change are tokens of the new text
too; a place past the inserted text where an old token starts is one from which old and new text are
aligned; and what is lexed in between is lexed at its own place.
-/

namespace ScriptTree

open Lexer (Lexes)

/-- A lexeme that reaches no further than the next change is one of the new text. -/
theorem Aligned.lexeme {c : Char} {s t : Text} {n k : Nat} {cs : List Change}
    (h : Aligned (c :: s) t n k cs)
    (hb : ∀ ch ∈ cs.head?, n + (Lexer.lexeme c s).reach ≤ ch.oldStart) :
    ∃ d t', t = d :: t' ∧ (Lexer.lexeme d t').token k = (Lexer.lexeme c s).token k ∧
      Aligned (Lexer.lexeme c s).rest (Lexer.lexeme d t').rest
        (n + (Lexer.lexeme c s).text.bytes) (k + (Lexer.lexeme c s).text.bytes) cs := by
  cases cs with
  | nil =>
    obtain rfl := h.eq_of_nil
    exact ⟨c, s, rfl, rfl, .same _ _ _⟩
  | cons ch cs =>
    obtain ⟨m, removed, added, s', t', hs, rfl, rfl, h'⟩ := h.split_change
    have hreach : (Lexer.lexeme c s).reach ≤ m.bytes := by
      have := hb _ rfl
      simp only at this
      omega
    cases m with
    | nil =>
      have := Lexer.lexeme_reach_pos c s
      simp only [Text.bytes_nil] at hreach
      omega
    | cons d m =>
      rw [List.cons_append] at hs
      obtain ⟨rfl, rfl⟩ := List.cons.inj hs
      obtain ⟨hk, ht, hr, u, hu, hu'⟩ :=
        Lexer.lexeme_agrees c m (removed ++ s') (added ++ t') hreach
      refine ⟨c, m ++ (added ++ t'), rfl, by simp only [Lexeme.token, hk, ht, hr], ?_⟩
      have hm : c :: m = (Lexer.lexeme c (m ++ (removed ++ s'))).text ++ u := by
        have hcut := Lexer.lexeme_text_append_rest c (m ++ (removed ++ s'))
        rw [hu, ← List.append_assoc, ← List.cons_append] at hcut
        exact (List.append_cancel_right hcut).symm
      have hbytes (a : Nat) : a + Text.bytes (c :: m) =
          a + (Lexer.lexeme c (m ++ (removed ++ s'))).text.bytes + u.bytes := by
        rw [hm, Text.bytes_append, Nat.add_assoc]
      simp only [hbytes] at h' ⊢
      rw [hu, hu']
      exact .change u removed added h'

/-- Old tokens that look no further than the next change are tokens of the new text, and behind them
the texts are still aligned. -/
theorem Aligned.lexes {s r : Text} {n l : Nat} {ts : List Token} (hl : Lexes s n ts r l) {t : Text}
    {k : Nat} {cs : List Change} (h : Aligned s t n k cs)
    (hb : ∀ c ∈ cs.head?, ∀ x ∈ ts, x.lookahead ≤ c.oldStart) :
    ∃ t' k', Lexes t k (ts.map (Token.moved · ((k : Int) - n))) t' k' ∧
      Aligned r t' l k' cs ∧ (k' : Int) - l = k - n := by
  induction hl generalizing t k with
  | nil s n => exact ⟨t, k, .nil t k, h, rfl⟩
  | @cons c s n ts r l hl ih =>
    obtain ⟨d, t₁, rfl, hsame, ha⟩ := h.lexeme fun ch hch => hb ch hch _ List.mem_cons_self
    have htext : (Lexer.lexeme d t₁).text = (Lexer.lexeme c s).text := congrArg Token.text hsame
    obtain ⟨t', k', hlt, ha', hk'⟩ := ih ha
      (fun ch hch y hy => hb ch hch y (List.mem_cons_of_mem _ hy))
    have hδ : ((k + (Lexer.lexeme c s).text.bytes : Nat) : Int) -
        (n + (Lexer.lexeme c s).text.bytes : Nat) = k - n := by omega
    rw [hδ] at hlt hk'
    refine ⟨t', k', ?_, ha', hk'⟩
    rw [List.map_cons, Lexer.moved_token, ← hsame]
    rw [← htext] at hlt
    exact .cons hlt

/-- A run says truly which old tokens are which new ones, and by how much they have moved. -/
structure Run.Copies (olds news : List Token) (run : Run) : Prop where
  oldEnd_le : run.oldEnd ≤ olds.length
  newEnd_le : run.newEnd ≤ news.length
  copied : ∃ d : Int, (news.drop run.newFirst).take run.count =
    ((olds.drop run.oldFirst).take run.count).map (Token.moved · d)

theorem Run.Copies.append {olds news : List Token} {run : Run} (h : run.Copies olds news)
    (more : List Token) : run.Copies olds (news ++ more) where
  oldEnd_le := h.oldEnd_le
  newEnd_le := by
    have := h.newEnd_le
    rw [List.length_append]
    omega
  copied := by
    obtain ⟨d, hd⟩ := h.copied
    have hle := h.newEnd_le
    rw [Run.newEnd] at hle
    refine ⟨d, ?_⟩
    rw [List.drop_append_of_le_length (by omega), List.take_append_of_le_length, hd]
    rw [List.length_drop]
    omega

namespace Relex

/-- The changes ahead lie between the ends of the two texts, behind all that is absorbed. -/
structure Ahead.Sound (before after : Text) (a : Ahead) : Prop where
  aligned : ∃ f s g t, before = f ++ s ∧ after = g ++ t ∧ g.bytes ≤ a.insertedEnd ∧
    a.delta = (g.bytes : Int) - f.bytes ∧ Aligned s t f.bytes g.bytes a.changes

theorem Ahead.Sound.absorb {before after : Text} {a : Ahead} (h : a.Sound before after)
    (place : Nat) :
    (a.absorb place).Sound before after ∧
      ∀ c ∈ (a.absorb place).changes.head?, place ≤ c.newStart := by
  obtain ⟨cs, delta, insertedEnd⟩ := a
  simp only [Ahead.absorb]
  fun_induction Relex.absorb place cs delta insertedEnd with
  | case1 delta insertedEnd => exact ⟨h, fun c hc => absurd hc (Option.not_mem_none c)⟩
  | case2 c cs delta insertedEnd hc ih =>
    apply ih
    obtain ⟨f, s, g, t, hs, ht, hg, hd, ha⟩ := h.aligned
    obtain ⟨m, removed, added, s', t', rfl, rfl, rfl, h'⟩ := ha.split_change
    refine ⟨f ++ (m ++ removed), s', g ++ (m ++ added), t', by simp [hs], by simp [ht], ?_, ?_, ?_⟩
    · simp only [Text.bytes_append, ← Nat.add_assoc]
      exact Nat.le_max_right _ _
    · simp only [Change.delta, Text.bytes_append, ← Nat.add_assoc]
    · simpa only [Text.bytes_append, ← Nat.add_assoc] using h'
  | case3 c cs delta insertedEnd hc =>
    refine ⟨h, fun c' hc' => ?_⟩
    obtain rfl := Option.some.inj hc'
    omega

/-- The old tokens from an index on are those of a text that is aligned with what is left of the new
text. -/
structure Meets (before : Text) (old : TokenStream) (index : Nat) (rest : Text) (place : Nat)
    (cs : List Change) (delta : Int) : Prop where
  aligned : ∃ s n, Lexes before 0 (old.toList.take index) s n ∧ old.toList.drop index = Lexer.scan s n ∧
    delta = (place : Int) - n ∧ Aligned s rest n place cs

/-- An old token that starts at a place past the inserted text is met there. -/
theorem meets_of_oldToken? {before after : Text} {old : TokenStream} {a : Ahead}
    {least place index : Nat} (hold : old.toList = Lexer.tokens before) (ha : a.Sound before after)
    (hhead : ∀ c ∈ a.changes.head?, place ≤ c.newStart)
    {f r : Text} (hafter : after = f ++ r) (hplace : f.bytes = place)
    (h : a.oldToken? old least place = some index) :
    Meets before old index r place a.changes a.delta := by
  unfold Ahead.oldToken? at h
  split at h
  · rename_i hin
    obtain ⟨hfound, -⟩ := Option.filter_eq_some_iff.1 h
    obtain ⟨x, hx, hstart⟩ := TokenStream.start_of_indexAt? hfound
    rw [← TokenStream.toList_eq] at hx
    -- The old text is cut where the token starts.
    obtain ⟨s, n, hl, hdrop⟩ := Lexes.of_scan_eq
      (hold.symm.trans (List.take_append_drop index old.toList).symm)
    have hn : n = (place - a.delta).toNat := by
      rw [← hstart]
      rw [← List.head?_drop, hdrop] at hx
      cases s with
      | nil => simp [Lexer.scan_nil] at hx
      | cons c s =>
        rw [Lexer.scan_cons] at hx
        obtain rfl := Option.some.inj hx
        rfl
    obtain ⟨F, hF, hFn⟩ := hl.cut
    obtain ⟨f₀, s₀, g, t, hs, ht, hg, hd, hal⟩ := ha.aligned
    obtain ⟨q, rfl, rfl⟩ := Text.append_eq_of_bytes_le (ht.symm.trans hafter) (by omega)
    rw [Text.bytes_append] at hplace
    obtain ⟨s', rfl, hal'⟩ := hal.drop_front fun c hc => by
      have := hhead c hc
      omega
    have hbytes : f₀.bytes + q.bytes = n := by omega
    have hsame : s' = s := by
      refine (Text.append_inj_of_bytes_eq (a := f₀ ++ q) (m := F) ?_ ?_).2
      · rw [← hF, hs, List.append_assoc]
      · rw [Text.bytes_append]
        omega
    subst hsame
    rw [hbytes, hplace] at hal'
    exact ⟨s', n, hl, hdrop, by omega, hal'⟩
  · simp at h

/-- Lexing past a change lexes the new text, up to its end or to a place where old tokens are met. -/
theorem seek_lexes {before after : Text} {old : TokenStream} (hold : old.toList = Lexer.tokens before)
    (least limit : Nat) {text : Text} {place : Nat} {ahead : Ahead} (misses : Nat)
    (ha : ahead.Sound before after) {f : Text} (hafter : after = f ++ text)
    (hplace : f.bytes = place) :
    ∃ r k, Lexes text place (seek old least limit text place ahead misses).fresh r k ∧
      ((seek old least limit text place ahead misses).resume = none → r = []) ∧
      ∀ i ∈ (seek old least limit text place ahead misses).resume,
        Meets before old i r k (seek old least limit text place ahead misses).ahead.changes
          (seek old least limit text place ahead misses).ahead.delta := by
  fun_induction seek old least limit text place ahead misses generalizing f with
  | case1 text place ahead misses ahead' index hi =>
    refine ⟨text, place, .nil text place, fun h => absurd h (Option.some_ne_none index),
      fun i hi' => ?_⟩
    obtain rfl := Option.some.inj hi'
    obtain ⟨hs, hh⟩ := ha.absorb place
    exact meets_of_oldToken? hold hs hh hafter hplace hi
  | case2 text place =>
    exact ⟨[], _, .to_end text place, fun _ => rfl, fun i hi => absurd hi (Option.not_mem_none i)⟩
  | case3 place =>
    exact ⟨[], place, .nil [] place, fun _ => rfl, fun i hi => absurd hi (Option.not_mem_none i)⟩
  | case4 place ahead misses ahead' hn misses' hm c s l =>
    rename_i ih
    have hnext : after = f ++ l.text ++ l.rest := by
      rw [hafter, List.append_assoc, Lexer.lexeme_text_append_rest]
    obtain ⟨r, k, hl, hnone, hsome⟩ := ih (ha.absorb place).1 hnext
      (by rw [Text.bytes_append, hplace])
    exact ⟨r, k, .cons hl, hnone, hsome⟩

structure Progress.Sound (old : TokenStream) (after : Text) (p : Progress) (rest : Text) : Prop where
  draft : p.draft.Made p.draft.flat
  lexes : Lexes after 0 p.draft.flat rest p.draft.stop
  runs : ∀ run ∈ p.runs, run.Copies old.toList p.draft.flat

theorem Progress.Sound.of_lexes {old : TokenStream} {after : Text} {p : Progress} {rest : Text}
    {k : Nat} {ts : List Token} (hd : p.draft.Made ts) (hl : Lexes after 0 ts rest k)
    (hr : ∀ run ∈ p.runs, run.Copies old.toList ts) :
    p.Sound old after rest ∧ p.draft.stop = k := by
  obtain ⟨rfl, hsound, -⟩ := hd.invariant
  have hk : p.draft.stop = k := hsound.stop_eq.trans hl.stop_getLast
  exact ⟨⟨hd, hk ▸ hl, hr⟩, hk⟩

/-- New tokens lexed where the draft stops. -/
theorem Progress.Sound.push {old : TokenStream} {after : Text} {p : Progress} {rest r : Text}
    {k : Nat} {ts : List Token} (h : p.Sound old after rest) (hl : Lexes rest p.draft.stop ts r k)
    (relexed : Nat) :
    Progress.Sound old after { p with draft := p.draft.pushAll ts, relexed := relexed } r ∧
      (p.draft.pushAll ts).stop = k := by
  have hc := Lexer.contiguous_scan rest p.draft.stop
  rw [hl.scan_eq, Token.Contiguous.append_iff, h.draft.invariant.2.1.stop_eq] at hc
  have hlook : ∀ t ∈ ts, t.start ≤ t.lookahead := by
    intro t ht
    have hmem : t ∈ Lexer.scan rest p.draft.stop := by
      rw [hl.scan_eq]
      exact List.mem_append_left _ ht
    exact (Lexer.bounds_of_mem_scan hmem).2
  exact Progress.Sound.of_lexes (h.draft.pushAll hc.1 hlook) (h.lexes.trans hl)
    fun run hrun => (h.runs run hrun).append ts

/-- Tokens that are put behind others as they stand in a list are a run. -/
theorem copies_of_prefix {olds news ts us : List Token} {index n : Nat}
    (h : ts ++ us = olds.drop index) (hne : ts.length ≠ 0) (hn : n = news.length) (d : Int) :
    Run.Copies olds (news ++ ts.map (Token.moved · d)) ⟨n, index, ts.length⟩ := by
  have hlen := congrArg List.length h
  rw [List.length_append, List.length_drop] at hlen
  refine ⟨?_, ?_, d, ?_⟩
  · simp only [Run.oldEnd]
    omega
  · simp [Run.newEnd, hn]
  · rw [hn, List.drop_left, ← h, List.take_left, List.take_of_length_le (by simp)]

/-- Taking over what stands as far as the next change keeps old and new aligned. -/
theorem takeOver_sound {before after : Text} {old : TokenStream}
    (hold : old.Stored (Lexer.tokens before)) {p : Progress} {rest : Text} {index : Nat}
    {cs : List Change} {delta : Int} (hp : p.Sound old after rest)
    (hm : Meets before old index rest p.draft.stop cs delta) :
    ∃ r, (p.takeOver old index (cs.head?.map Change.oldStart) delta).1.Sound old after r ∧
      Meets before old (p.takeOver old index (cs.head?.map Change.oldStart) delta).2 r
        (p.takeOver old index (cs.head?.map Change.oldStart) delta).1.draft.stop cs delta ∧
      (cs = [] → r = []) := by
  obtain ⟨s, n, hl, hdrop, hδ, hal⟩ := hm.aligned
  obtain ⟨hflat, hsound, -⟩ := hold.invariant
  -- What is taken is a front of the old tokens, none of which looks past the next change.
  obtain ⟨ts, hts⟩ := hsound.copyInto_copied index (cs.head?.map Change.oldStart) delta p.draft
  rw [← old.toList_eq] at hts
  obtain ⟨us, hus⟩ := hts.front
  have hbound : ∀ c ∈ cs.head?, ∀ t ∈ ts, t.lookahead ≤ c.oldStart := by
    intro c hc
    apply hts.within
    rw [Option.mem_def.1 hc]
    rfl
  have hall : cs = [] → us = [] := by
    rintro rfl
    rw [hts.all rfl] at hus
    simpa using hus
  obtain ⟨s', n', hlt, hu⟩ := Lexes.of_scan_eq (hdrop.symm.trans hus.symm)
  obtain ⟨r, k, hlr, hal', hk⟩ := hal.lexes hlt hbound
  rw [← hδ] at hlr hk
  have htake : old.toList.take (index + ts.length) = old.toList.take index ++ ts := by
    rw [List.take_add, ← hus, List.take_left]
  have hdrop' : old.toList.drop (index + ts.length) = us := by
    rw [← List.drop_drop, ← hus, List.drop_left]
  have hmeets : Meets before old (index + ts.length) r k cs delta :=
    ⟨s', n', htake ▸ hl.trans hlt, hdrop'.trans hu, hk.symm, hal'⟩
  have hr : cs = [] → r = [] := by
    rintro rfl
    obtain rfl := hal'.eq_of_nil
    have := hu.symm.trans (hall rfl)
    cases s' with
    | nil => rfl
    | cons c s' => simp [Lexer.scan_cons] at this
  -- The first of the tokens that are taken has moved to where the draft stops.
  have hstart : ∀ t ∈ ts.head?, (t.start : Int) + delta = Token.endOf p.draft.flat := by
    intro t ht
    have hc := Lexer.contiguous_scan s n
    rw [hlt.scan_eq] at hc
    rw [← hp.draft.invariant.2.1.stop_eq]
    cases ts with
    | nil => simp at ht
    | cons u ts =>
      obtain rfl := Option.some.inj ht
      have := hc.1
      omega
  have hcopied := hts.take_eq.symm
  rw [old.toList_eq, hflat] at hcopied
  have hmade := Draft.Made.copyInto _ _ _ hp.draft hold hcopied hstart
  have hruns : ∀ run ∈ (p.takeOver old index (cs.head?.map Change.oldStart) delta).1.runs,
      run.Copies old.toList (p.draft.flat ++ ts.map (Token.moved · delta)) := by
    intro run hrun
    simp only [Progress.takeOver, hts.index, Nat.add_sub_cancel_left] at hrun
    split at hrun
    · rcases List.mem_append.1 hrun with hrun | hrun
      · exact (hp.runs run hrun).append _
      · obtain rfl := List.mem_singleton.1 hrun
        exact copies_of_prefix hus (by omega) (Draft.length_flat _).symm delta
    · exact (hp.runs run hrun).append _
  obtain ⟨hnew, hstop⟩ := Progress.Sound.of_lexes
    (p := (p.takeOver old index (cs.head?.map Change.oldStart) delta).1) hmade
    (hp.lexes.trans hlr) hruns
  refine ⟨r, hnew, ?_, hr⟩
  rw [hstop]
  exact hts.index ▸ hmeets

/-- Lexing past the next change, from where tokens can no longer be taken over. -/
theorem pass_sound {before after : Text} {old : TokenStream}
    (hold : old.toList = Lexer.tokens before) (limit : Nat) {p : Progress} {index : Nat} {c : Change}
    {cs : List Change} {delta : Int} {rest : Text} (hp : p.Sound old after rest)
    (hm : Meets before old index rest p.draft.stop (c :: cs) delta) {stretch : Stretch}
    (hst : stretch = seek old index limit ((after.dropBytes? p.draft.stop).getD []) p.draft.stop
      ⟨cs, c.delta, c.newStop⟩ 0) (relexed : Nat) :
    ∃ r, Progress.Sound old after { p with
        draft := p.draft.pushAll stretch.fresh, relexed := relexed } r ∧
      (stretch.resume = none → r = []) ∧
      ∀ i ∈ stretch.resume, Meets before old i r (p.draft.pushAll stretch.fresh).stop
        stretch.ahead.changes stretch.ahead.delta := by
  obtain ⟨s, n, hl, hdrop, hδ, hal⟩ := hm.aligned
  obtain ⟨f, hf, hfn⟩ := hl.cut
  obtain ⟨g, hg, hgn⟩ := hp.lexes.cut
  rw [Nat.zero_add] at hfn hgn
  have htext : (after.dropBytes? p.draft.stop).getD [] = rest := by
    rw [hg, hgn, Text.dropBytes?_append, Option.getD_some]
  -- Behind the change the texts are aligned anew.
  have hahead : Ahead.Sound before after ⟨cs, c.delta, c.newStop⟩ := by
    obtain ⟨m, removed, added, s', t', rfl, rfl, rfl, h'⟩ := hal.split_change
    refine ⟨f ++ (m ++ removed), s', g ++ (m ++ added), t', by simp [hf], by simp [hg], ?_, ?_, ?_⟩
    · simp only [Text.bytes_append]
      omega
    · simp only [Change.delta, Text.bytes_append]
      omega
    · simpa only [hfn, hgn, Text.bytes_append, ← Nat.add_assoc] using h'
  rw [htext] at hst
  obtain ⟨r, k, hlr, hnone, hsome⟩ := seek_lexes hold index limit 0 hahead hg hgn.symm
  rw [← hst] at hlr hnone hsome
  obtain ⟨hs, hk⟩ := hp.push hlr relexed
  exact ⟨r, hs, hnone, hk ▸ hsome⟩

/-- The loop comes to the end of the new text. -/
theorem loop_sound {before after : Text} {old : TokenStream}
    (hold : old.Stored (Lexer.tokens before)) (limit : Nat) {p : Progress} {index : Nat}
    {cs : List Change} {delta : Int} {rest : Text} (hp : p.Sound old after rest)
    (hm : Meets before old index rest p.draft.stop cs delta) :
    (loop old after limit p index cs delta).Sound old after [] := by
  fun_induction loop old after limit p index cs delta generalizing rest with
  | case1 p index delta =>
    obtain ⟨r, hr, -, hnil⟩ := takeOver_sound hold hp hm
    exact hnil rfl ▸ hr
  | case2 p index delta c cs p' index' htake place stretch =>
    rename_i hres
    obtain ⟨r, hr, hm', -⟩ := takeOver_sound hold hp hm
    rw [List.head?_cons, Option.map_some, htake] at hr hm'
    obtain ⟨r', hr', hnone, -⟩ := pass_sound hold.toList_eq limit hr hm' (rfl : stretch = _) _
    exact hnone hres ▸ hr'
  | case3 p index delta c cs p' index' htake place stretch q i hres =>
    rename_i ih
    obtain ⟨r, hr, hm', -⟩ := takeOver_sound hold hp hm
    rw [List.head?_cons, Option.map_some, htake] at hr hm'
    obtain ⟨r', hr', -, hsome⟩ := pass_sound hold.toList_eq limit hr hm' (rfl : stretch = _) _
    exact ih hr' (hsome i hres)

end Relex

/-- The tokens of a changed text, made from those of the old one, are the tokens that the text has by
itself, and the runs say where they came from. -/
theorem relex_sound {before : Text} {old : TokenStream} (hold : old.Stored (Lexer.tokens before))
    {es : List Edit} (hv : Edit.validate before es = .ok ()) (limit : Nat) {relexed : Relexed}
    (hr : relexed = relex old (Edit.applyAll before es) (Change.ofEdits es) limit) :
    relexed.tokens.Stored (Lexer.tokens (Edit.applyAll before es)) ∧
      ∀ run ∈ relexed.runs, run.Copies old.toList relexed.tokens.toList := by
  have hstart : Relex.Progress.Sound old (Edit.applyAll before es) ⟨.empty, [], 0⟩
      (Edit.applyAll before es) := ⟨.empty, .nil _ 0, nofun⟩
  have hmeets : Relex.Meets before old 0 (Edit.applyAll before es) 0 (Change.ofEdits es) 0 :=
    ⟨before, 0, .nil before 0, hold.toList_eq, rfl, Edit.aligned_applyAll hv⟩
  obtain ⟨hd, hl, hruns⟩ := Relex.loop_sound hold limit hstart hmeets
  have htokens := hl.scan_eq
  rw [Lexer.scan_nil, List.append_nil] at htokens
  subst hr
  simp only [relex, Draft.toList_finish]
  refine ⟨?_, hruns⟩
  rw [Lexer.tokens, htokens]
  exact .finish hd

end ScriptTree
