import ScriptTree.Proofs.Document.Errors
import ScriptTree.Proofs.Grammar.Completeness

namespace ScriptTree

namespace Grammar

open Cursor (Spells)
open Expression (Parses maxNesting)
open Statement (Body Sequence)

theorem Opens.atTerminator {s : PhraseSort} {c : Cursor} (h : Opens s c.kind) :
    c.atTerminator = false := by
  unfold Cursor.atTerminator
  split
  · exact absurd ‹_› (h.ne (by decide))
  · exact absurd ‹_› (h.ne (by decide))
  · exact absurd ‹_› (h.ne (by decide))
  · rfl

theorem grip_of_atTerminator {c : Cursor} (h : c.atTerminator) : grip c.kind = 0 := by
  unfold Cursor.atTerminator at h
  split at h
  · rw [‹c.kind = _›]
    rfl
  · rw [‹c.kind = _›]
    rfl
  · rw [‹c.kind = _›]
    rfl
  · cases h

theorem ne_of_atTerminator {c : Cursor} (h : c.atTerminator) : c.kind ≠ .comma ∧ c.kind ≠ .eq := by
  constructor <;> intro hk <;> simp [Cursor.atTerminator, hk] at h

theorem Derives.parses_front {n : Nat} {ws : List Word} {p : Phrase}
    (h : Derives n .conditional ws p) {c c' : Cursor} (hr : c.Ready) (hs : Spells ws c c')
    (hk : grip c'.kind = 0) :
    ∃ t, Parses n (.nested .whole) c.flush.2 [t] c' ∧ Shows [t] { phrases := [p] } :=
  h.complete.nested (ready_flush hr) rfl ((Cursor.spells_flush h.words.ne_nil).2 hs)
    (by rw [hk]; decide)

theorem exists_listed (w : List Word) (parts : List (List Word)) (trailing : Bool) :
    ∃ vs, listed (w :: parts) trailing = w ++ vs := by
  cases parts <;> exact ⟨_, rfl⟩

theorem parses_targets {n : Nat} {x : List Word × Phrase} {xs : List (List Word × Phrase)}
    (hd : ∀ y ∈ x :: xs, Derives n .conditional y.1 y.2) {trailing : Bool} {c c' : Cursor}
    (hr : c.Ready) (hs : Spells (listed (x.1 :: xs.map Prod.fst) trailing) c c')
    (heq : c'.kind = .eq) :
    ∃ t c₁ f, Parses n (.nested .whole) c.flush.2 [t] c₁ ∧ (c₁.kind = .comma ∨ c₁.kind = .eq) ∧
      Parses n .targets c₁ f c' ∧ Shows (t :: f) { phrases := x.2 :: xs.map Prod.snd } := by
  induction xs generalizing x c with
  | nil =>
    have hx := hd x List.mem_cons_self
    cases trailing with
    | false =>
      rw [List.map_nil, listed_single] at hs
      obtain ⟨t, ht, hshows⟩ := hx.parses_front hr hs (by rw [heq]; rfl)
      exact ⟨t, c', [], ht, .inr heq, .targetsEnd (heq.trans_ne (by decide)), hshows⟩
    | true =>
      obtain ⟨c₁, hs₁, hs₂⟩ := Spells.split hs
      have hcomma : c₁.kind = .comma := Cursor.kind_of_head? hs₂.1
      obtain ⟨t, ht, hshows⟩ := hx.parses_front hr hs₁ (by rw [hcomma]; rfl)
      have hmark := marks_of_spells (ht.moves.ready (ready_flush hr)).1 rfl hs₂
      obtain rfl : c' = c₁.bump.2 := hmark.spells
      exact ⟨t, c₁, _, ht, .inl hcomma, .targetsTrailing hcomma (.inl heq),
        hshows.append hmark.shows⟩
  | cons y ys ih =>
    obtain ⟨c₁, hs₁, hs₂⟩ := Spells.split hs
    have hcomma : c₁.kind = .comma := Cursor.kind_of_head? hs₂.1
    obtain ⟨t, ht, hshows⟩ := (hd x List.mem_cons_self).parses_front hr hs₁ (by rw [hcomma]; rfl)
    have hmark := marks_of_spells (ht.moves.ready (ready_flush hr)).1 rfl hs₂
    have hys : ∀ z ∈ y :: ys, Derives n .conditional z.1 z.2 :=
      fun z hz => hd z (List.mem_cons_of_mem _ hz)
    -- A further target starts behind the comma, so the comma is not the last one.
    have hopens : Opens .conditional c₁.bump.2.kind := by
      obtain ⟨vs, hvs⟩ := exists_listed y.1 (ys.map Prod.fst) trailing
      have hs₃ : Spells (listed (y.1 :: ys.map Prod.fst) trailing) c₁.bump.2 c' := hs₂.2
      rw [hvs] at hs₃
      obtain ⟨_, hs₃, -⟩ := hs₃.split
      exact (hys y List.mem_cons_self).opens_kind hs₃
    obtain ⟨u, c₂, f, hu, -, hf, hshows'⟩ := ih hys hmark.ready hs₂.2
    have hend : ¬(c₁.bump.2.kind = .eq ∨ c₁.bump.2.atTerminator) := by
      rw [hopens.atTerminator]
      exact not_or.2 ⟨hopens.ne (by decide), by simp⟩
    refine ⟨t, c₁, _, ht, .inl hcomma, .targetsMore hcomma hend (.operand hu) hf, ?_⟩
    have hall : Shows _ { phrases := x.2 :: y.2 :: ys.map Prod.snd } :=
      (hshows.append hmark.shows).append ((shows_trivia hmark.ready.trivia).append hshows')
    simpa [Cursor.flush] using hall

/-- A sentence is parsed as one, and what is read off it does not hang on its terminator. -/
theorem exists_body_of_sentence {ws : List Word} {s : Sentence} (h : Sentence.Derives ws s)
    {c c' : Cursor} (hr : c.Ready) (hs : Spells ws c c') (hend : c'.atTerminator) :
    ∃ k f, Body c k f c' ∧ k ≠ .error ∧ Forest.hasError f = false ∧
      ∀ g, Shows g {} → Tells (.node k (f ++ g)) s := by
  have hgrip := grip_of_atTerminator hend
  have hlast {w : List Word} {p : Phrase} (hd : Derives maxNesting .conditional w p) {d : Cursor}
      (hr : d.Ready) (hs : Spells w d c') :
      ∃ f, Parses maxNesting (.operand (.nested .whole)) d f c' ∧ Shows f { phrases := [p] } :=
    hd.complete.nestedOperand hd.words.ne_nil hr hs (by rw [hgrip]; decide)
  cases h with
  | expression h =>
    obtain ⟨f, hf, hshows⟩ := hlast h hr hs
    obtain ⟨hcomma, heq⟩ := ne_of_atTerminator hend
    refine ⟨_, f, .expression (h.opens_kind hs).atTerminator hf hcomma heq, by decide,
      hshows.clean, fun g hg => ?_⟩
    exact tells_expression (hshows.append hg)
  | @assignment targets w p hne htargets trailing value =>
    obtain ⟨x, xs, rfl⟩ := List.exists_cons_of_ne_nil hne
    obtain ⟨c₂, hs₁, hs₂⟩ := hs.split
    have heq : c₂.kind = .eq := Cursor.kind_of_head? hs₂.1
    obtain ⟨t, c₁, f, ht, hmore, hf, hshows⟩ := parses_targets htargets hr hs₁ heq
    have hr₁ := (ht.moves.ready (ready_flush hr)).1
    have hr₂ := (hf.moves.ready hr₁).1
    have hmark := marks_of_spells hr₂ rfl hs₂
    obtain ⟨g, hg, hshows'⟩ := hlast value hmark.ready hmark.spells
    have hopens : Opens .conditional c.kind := by
      obtain ⟨vs, hvs⟩ := exists_listed x.1 (xs.map Prod.fst) trailing
      rw [List.map_cons, hvs] at hs₁
      obtain ⟨_, hs₀, -⟩ := hs₁.split
      exact (htargets x List.mem_cons_self).opens_kind hs₀
    have hall := (shows_trivia hr.trivia).append
      (((shows_targets hshows.clean).append hmark.shows).append hshows')
    refine ⟨_, _, .assignment hopens.atTerminator ht hmore hf heq hg, by decide, hall.clean,
      fun e he => ?_⟩
    have htold := hall.append he
    have hshape : c.pending.map Token.tree ++
        ([.node .assignmentTargets (t :: f)] ++ c₂.bump.1 ++ g) ++ e =
          c.pending.map Token.tree ++ .node .assignmentTargets (t :: f) ::
            (c₂.pending.map Token.tree ++ .token .eq Kind.eq.word.2 :: (g ++ e)) := by
      rw [hmark.eq]
      simp
    rw [hshape] at htold
    have htells := tells_assignment hr.trivia hr₂.trivia _ hshows htold
    rw [← hshape] at htells
    exact htells

/-! ### Sentences one after another -/

theorem shows_ending {c : Cursor} (hr : c.Ready) : Shows (Statement.ending c).1 {} := by
  unfold Statement.ending
  by_cases hk : c.kind = .newline ∨ c.kind = .semicolon
  · have hmark : c.kind.isLiteral = false ∧ c.kind ≠ .error ∧ c.kind ≠ .eof := by
      rcases hk with hk | hk <;> rw [hk] <;> decide
    obtain ⟨t, r, hrest, ht⟩ := Cursor.exists_rest hmark.2.2
    rw [if_pos (by simpa using hk), Cursor.take_eq hrest]
    rw [← ht] at hmark
    exact (shows_trivia hr.trivia).append (shows_token hmark.1 hmark.2.1 t.text)
  · rw [if_neg (by simpa using hk)]
    exact shows_trivia hr.trivia

/-- A sentence up to its terminator is parsed as one statement. -/
theorem exists_parse?_of_sentence {ws : List Word} {s : Sentence} (h : Sentence.Derives ws s)
    {tokens : List Token} {c : Cursor} (hs : Spells ws (.start tokens) c) (hend : c.atTerminator)
    (n : Nat) :
    ∃ x, Statement.parse? tokens n = some (x, (Statement.ending c).2.rest) ∧
      x.tree.hasError = false ∧ Tells x.tree s := by
  have hready := (Cursor.start_ready tokens).1
  obtain ⟨k, f, hbody, hk, hclean, htells⟩ := exists_body_of_sentence h hready hs hend
  have hshows := shows_ending (hbody.moves.ready hready).1
  have hall : ¬tokens.all fun t => t.kind.isTrivia := by
    intro hall
    have hrest : (Cursor.start tokens).rest = [] :=
      List.dropWhile_eq_nil_iff.2 (List.all_eq_true.1 hall)
    obtain ⟨w, ws, rfl⟩ := List.exists_cons_of_ne_nil h.words.1
    have hhead := hs.1
    rw [hrest] at hhead
    cases hhead
  have hfinish : Statement.finish c = Statement.ending c := by
    unfold Statement.finish
    simp only [hend, if_true, List.nil_append]
  have hparse := Statement.parse?_eq hall n hbody
  rw [hfinish] at hparse
  refine ⟨_, hparse, ?_, htells _ hshows⟩
  rw [Tree.hasError_node, Forest.hasError_append, hclean, hshows.clean, beq_eq_false_iff_ne.2 hk]
  rfl

theorem exists_sequence_of_laid {wss : List (List Word)} {tokens : List Token}
    (h : Laid wss tokens) {program : List (List Word × Sentence)} (hp : program.map Prod.fst = wss)
    (hd : ∀ x ∈ program, Sentence.Derives x.1 x.2) (n : Nat) :
    ∃ ss tail, Sequence tokens n ss tail ∧ (∀ s ∈ ss, s.tree.hasError = false) ∧
      List.Forall₂ Tells (ss.map Statement.tree) (program.map Prod.snd) := by
  induction h generalizing program n with
  | @done tail htail =>
    obtain rfl := List.map_eq_nil_iff.1 hp
    exact ⟨[], tail, .done (if_pos (List.all_eq_true.2 htail)), by simp, .nil⟩
  | @last lead ws ts hlead body =>
    obtain ⟨⟨_, s⟩, _, rfl, rfl, hnil⟩ := List.map_eq_cons_iff.1 hp
    obtain rfl := List.map_eq_nil_iff.1 hnil
    have hsentence := hd _ List.mem_cons_self
    obtain ⟨c, hs, hrest⟩ := Cursor.exists_spells_start hsentence.words.1 hlead body []
      (by simp)
    rw [List.append_nil] at hs
    have hkind := Cursor.kind_eq_eof hrest
    obtain ⟨x, hx, hclean, htells⟩ := exists_parse?_of_sentence hsentence hs
      (by simp [Cursor.atTerminator, hkind]) n
    have hleft : (Statement.ending c).2.rest = [] := by
      rw [Statement.ending, if_neg (by simp [hkind])]
      exact hrest
    rw [hleft] at hx
    exact ⟨[x], [], .step hx (.done rfl), by simpa using hclean, .cons htells .nil⟩
  | @ended lead ws ts t wss rest hlead body hend more ih =>
    obtain ⟨⟨_, s⟩, program, rfl, rfl, hmap⟩ := List.map_eq_cons_iff.1 hp
    have hsentence := hd _ List.mem_cons_self
    have hskips : Cursor.skips 0 t = false := by
      rcases hend with hk | hk <;> simp [Cursor.skips, hk, Kind.isTrivia]
    obtain ⟨c, hs, hrest⟩ := Cursor.exists_spells_start hsentence.words.1 hlead body
      (t :: rest) (by simpa using hskips)
    have hkind := Cursor.kind_eq_of_rest hrest
    have hterm : c.kind = .newline ∨ c.kind = .semicolon := by rwa [hkind]
    obtain ⟨x, hx, hclean, htells⟩ := exists_parse?_of_sentence hsentence hs
      (by rcases hterm with hk | hk <;> simp [Cursor.atTerminator, hk]) n
    have hleft : (Statement.ending c).2.rest = rest := by
      rw [Statement.ending, if_pos (by simpa using hterm), Cursor.take_eq hrest]
      rfl
    rw [hleft] at hx
    obtain ⟨ss, tail, hseq, hss, htold⟩ := ih hmap
      (fun y hy => hd y (List.mem_cons_of_mem _ hy)) (n + x.count)
    exact ⟨x :: ss, tail, .step hx hseq, List.forall_mem_cons.2 ⟨hclean, hss⟩, .cons htells htold⟩

/-- A text whose tokens are sentences of the grammar, with any trivia between their words, has a
document without errors, and the statements that are read off its tree are these sentences. -/
theorem parse_of_laid {s : Text} {program : List (List Word × Sentence)}
    (hd : ∀ x ∈ program, Sentence.Derives x.1 x.2)
    (h : Laid (program.map Prod.fst) (Lexer.tokens s)) :
    (Document.parse s).hasErrors = false ∧
      ∃ statements, Ast.statements? (Document.parse s).tree = some statements ∧
        List.Forall₂ ReadsSentence statements (program.map Prod.snd) := by
  obtain ⟨ss, tail, hseq, hclean, htells⟩ := exists_sequence_of_laid h rfl hd 0
  have heof : ∀ t ∈ Lexer.tokens s, t.kind ≠ .eof := fun t ht => Lexer.kind_ne_eof_of_mem_tokens ht
  have hparse : Statement.parseAll (Lexer.tokens s) = (ss, tail) :=
    hseq.parseAllLoop_eq heof (Nat.le_refl _)
  have htree : (Document.parse s).tree = programTree (ss.map Statement.tree) tail := by
    simp only [Document.parse, hparse, Document.assemble]
  have htail : Forest.hasError (tail.map Token.tree) = false := (shows_trivia hseq.tail_trivia).clean
  have hstatements : Forest.hasError (ss.map Statement.tree) = false := by
    rw [Forest.hasError_eq_false_iff]
    intro t ht
    obtain ⟨x, hx, rfl⟩ := List.mem_map.1 ht
    exact hclean x hx
  have herror : (Document.parse s).tree.hasError = false := by
    rw [htree, programTree, Tree.hasError_node, Forest.hasError_append, hstatements, htail]
    rfl
  refine ⟨?_, ?_⟩
  · rw [Bool.eq_false_iff, Ne, (Document.parse_current s).hasErrors_iff_hasError, herror]
    exact Bool.false_ne_true
  · rw [htree]
    exact exists_statements? htells tail

theorem parse_of_laid_call :
    let s : Text := "x, = f(a,\n k=-b) # t\n".toList
    (Document.parse s).hasErrors = false ∧
      ∃ statements, Ast.statements? (Document.parse s).tree = some statements ∧
        List.Forall₂ ReadsSentence statements
          [.assignment [.name ['x']] (.call (.name ['f']) [.name ['a']]
            [(['k'], .unary .minus (.name ['b']))])] := by
  intro s
  have hsigned {n : Nat} {w : List Word} {p : Phrase} (h : Derives n (.unary .sign) w p) :
      Derives n .conditional w p :=
    .unconditional (.unjoined (.unjoined (.plain (.uncompared
      (.unjoined (.unjoined (.unjoined (.unjoined h))))))))
  have hname (n : Nat) (x : Text) : Derives (n + 1) .conditional [(.identifier, x)] (.name x) :=
    hsigned (.plain (.base (.bare (.name x))))
  have hminus : Derives 255 .conditional (Kind.minus.word :: [(.identifier, ['b'])])
      (.unary .minus (.name ['b'])) :=
    hsigned (.unary rfl (.plain (.base (.bare (.name ['b'])))))
  have hcall := hsigned (.plain (.base (@Derives.call 255 _ _
    [([(.identifier, ['a'])], .name ['a'])]
    [⟨['k'], Kind.minus.word :: [(.identifier, ['b'])], .unary .minus (.name ['b'])⟩]
    (.bare (.name ['f'])) (List.forall_mem_singleton.2 (hname 254 ['a']))
    (List.forall_mem_singleton.2 hminus) false)))
  have hsentence := @Sentence.Derives.assignment [([(.identifier, ['x'])], .name ['x'])] _ _ (by simp)
    (List.forall_mem_singleton.2 (hname 255 ['x'])) true hcall
  refine @parse_of_laid s [(_, _)] (List.forall_mem_singleton.2 hsentence) ?_
  have htokens : Lexer.tokens s = [] ++ ([⟨.identifier, ['x'], 0, 2⟩, ⟨.comma, [','], 1, 2⟩,
      ⟨.whitespace, [' '], 2, 4⟩, ⟨.eq, ['='], 3, 5⟩, ⟨.whitespace, [' '], 4, 6⟩,
      ⟨.identifier, ['f'], 5, 7⟩, ⟨.lParen, ['('], 6, 7⟩, ⟨.identifier, ['a'], 7, 9⟩,
      ⟨.comma, [','], 8, 9⟩, ⟨.newline, ['\n'], 9, 10⟩, ⟨.whitespace, [' '], 10, 12⟩,
      ⟨.identifier, ['k'], 11, 13⟩, ⟨.eq, ['='], 12, 14⟩, ⟨.minus, ['-'], 13, 14⟩,
      ⟨.identifier, ['b'], 14, 16⟩, ⟨.rParen, [')'], 15, 16⟩, ⟨.whitespace, [' '], 16, 18⟩,
      ⟨.comment, ['#', ' ', 't'], 17, 21⟩] ++ ⟨.newline, ['\n'], 20, 21⟩ :: []) := by
    decide +kernel
  rw [htokens]
  refine .ended (by simp) ?_ (.inl rfl) (.done (by simp))
  repeat first
    | exact .nil
    | refine @Spaced.word _ _ ⟨_, _, _, _⟩ _ _ rfl ?_
    | refine .trivia rfl (by decide) ?_

end Grammar

end ScriptTree
