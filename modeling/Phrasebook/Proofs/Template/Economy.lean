import Mathlib
import Phrasebook.Proofs.Template.Relocation

/-!
# Tokens are read once

Moving on to the next token pulls that token from the scanner, so it matters how often that is done.
In front of the end of the input every round of every loop pulls a token, so all loops end, and
behind it no token is asked for (`read_pulls_each_token_once`).

The latter cannot be seen on tokens that end with the input, since moving on from the last of them
is without effect. So a template is read here from tokens that go on behind the end of the input,
with arbitrary ones, and these are all left over.
-/

namespace Phrasebook.Template

namespace Reader

/-- The end of the input is among the tokens that are not read yet. -/
def Ending (s : Reader) : Prop := ∃ t ∈ s.tokens, t.kind = .eof

/-- Tokens are pulled one after the other from one state up to another one, and errors reported in
between. Behind the end of the input no token is pulled. -/
inductive Pulls : Reader → List Token → Reader → Prop where
  | done (s : Reader) : Pulls s [] s
  | report {s t : Reader} {ts : List Token} (cause : SyntaxError.Cause) :
      Pulls (s.report cause) ts t → Pulls s ts t
  | pull {s t : Reader} {u : Token} {us ts : List Token} : s.current.kind ≠ .eof →
      s.upcoming = u :: us → Pulls s.advance ts t → Pulls s (u :: ts) t

/-- At least one token is pulled from one state up to another one. -/
def Consumes (s t : Reader) : Prop := ∃ u us, s.Pulls (u :: us) t

variable {s t v : Reader} {ts us : List Token}

@[simp] theorem report_current (s : Reader) (cause : SyntaxError.Cause) :
    (s.report cause).current = s.current :=
  (List.cons.inj (report_tokens s cause)).1

@[simp] theorem report_upcoming (s : Reader) (cause : SyntaxError.Cause) :
    (s.report cause).upcoming = s.upcoming :=
  (List.cons.inj (report_tokens s cause)).2

@[simp] theorem report_atBoundary (s : Reader) (cause : SyntaxError.Cause) :
    (s.report cause).atBoundary = s.atBoundary := by
  simp [atBoundary, at?]

namespace Ending

theorem report (h : s.Ending) (cause : SyntaxError.Cause) : (s.report cause).Ending := by
  rwa [Ending, report_tokens]

/-- In front of the end of the input there is another token. -/
theorem exists_upcoming (h : s.Ending) (hne : s.current.kind ≠ .eof) :
    ∃ u us, s.upcoming = u :: us := by
  obtain ⟨t, ht, heof⟩ := h
  rcases List.mem_cons.mp ht with rfl | ht
  · exact absurd heof hne
  · exact List.exists_cons_of_ne_nil (List.ne_nil_of_mem ht)

theorem advance (h : s.Ending) (hne : s.current.kind ≠ .eof) : s.advance.Ending := by
  obtain ⟨u, us, hupcoming⟩ := h.exists_upcoming hne
  obtain ⟨t, ht, heof⟩ := h
  rcases List.mem_cons.mp ht with rfl | ht
  · exact absurd heof hne
  · refine ⟨t, ?_, heof⟩
    rwa [tokens_advance_of_cons rfl (by simp [hupcoming])]

end Ending

namespace Pulls

theorem trans (h : s.Pulls ts t) (h' : t.Pulls us v) : s.Pulls (ts ++ us) v := by
  induction h with
  | done => exact h'
  | report cause _ ih => exact .report cause (ih h')
  | pull hne hupcoming _ ih => exact .pull hne hupcoming (ih h')

/-- The tokens that are pulled are the next ones, and the others are left. -/
theorem upcoming (h : s.Pulls ts t) : s.upcoming = ts ++ t.upcoming := by
  induction h with
  | done => rfl
  | report cause _ ih => rwa [report_upcoming] at ih
  | @pull s t u us ts _ hupcoming _ ih =>
      have hadvance : s.advance.upcoming = us := by
        simp [Reader.advance, hupcoming]
      rw [hupcoming, List.cons_append, ← ih, hadvance]

theorem ending (h : s.Pulls ts t) (hs : s.Ending) : t.Ending := by
  induction h with
  | done => exact hs
  | report cause _ ih => exact ih (hs.report cause)
  | pull hne _ _ ih => exact ih (hs.advance hne)

end Pulls

theorem ne_eof_of_atBoundary (h : s.atBoundary = false) : s.current.kind ≠ .eof := by
  intro heof
  simp [atBoundary, at?, heof] at h

/-- Inside of an expression tokens are pulled in front of the end of the input only. -/
theorem Within.exists_pulls (h : s.Within t) (hs : s.Ending) : ∃ ts, s.Pulls ts t := by
  induction h using Relation.ReflTransGen.head_induction_on with
  | refl => exact ⟨[], .done t⟩
  | head hmove _ ih =>
      cases hmove with
      | report cause =>
          obtain ⟨ts, hpulls⟩ := ih (hs.report cause)
          exact ⟨ts, .report cause hpulls⟩
      | advance hinside =>
          have hne := ne_eof_of_atBoundary hinside
          obtain ⟨u, us, hupcoming⟩ := hs.exists_upcoming hne
          obtain ⟨ts, hpulls⟩ := ih (hs.advance hne)
          exact ⟨u :: ts, .pull hne hupcoming hpulls⟩

namespace Consumes

theorem advance (hs : s.Ending) (hne : s.current.kind ≠ .eof) : s.Consumes s.advance := by
  obtain ⟨u, us, hupcoming⟩ := hs.exists_upcoming hne
  exact ⟨u, [], .pull hne hupcoming (.done _)⟩

theorem report (cause : SyntaxError.Cause) (h : (s.report cause).Consumes t) : s.Consumes t := by
  obtain ⟨u, us, h⟩ := h
  exact ⟨u, us, .report cause h⟩

theorem pulls (h : s.Consumes t) (h' : t.Pulls ts v) : s.Consumes v := by
  obtain ⟨u, us, h⟩ := h
  exact ⟨u, us ++ ts, h.trans h'⟩

theorem ending (h : s.Consumes t) (hs : s.Ending) : t.Ending := by
  obtain ⟨u, us, h⟩ := h
  exact h.ending hs

theorem within (h : s.Consumes t) (hs : s.Ending) (h' : t.Within v) : s.Consumes v := by
  obtain ⟨ts, hpulls⟩ := h'.exists_pulls (h.ending hs)
  exact h.pulls hpulls

theorem length_lt (h : s.Consumes t) : t.upcoming.length < s.upcoming.length := by
  obtain ⟨u, us, h⟩ := h
  have hlength := congrArg List.length h.upcoming
  rw [List.length_append, List.length_cons] at hlength
  omega

end Consumes

/-- The run of a loop: as long as its condition holds its body is run, and every time that pulls at
least one token. -/
inductive Loops {σ : Type} (reader : σ → Reader) (goes : σ → Bool) (body : σ → σ) :
    σ → σ → Prop where
  | exit {a : σ} : goes a = false → Loops reader goes body a a
  | next {a b : σ} : goes a = true → (reader a).Consumes (reader (body a)) →
      Loops reader goes body (body a) b → Loops reader goes body a b

namespace Loops

variable {σ : Type} {reader : σ → Reader} {goes : σ → Bool} {body : σ → σ} {a b : σ}

theorem exits (h : Loops reader goes body a b) : goes b = false := by
  induction h with
  | exit hexit => exact hexit
  | next _ _ _ ih => exact ih

theorem exists_pulls (h : Loops reader goes body a b) :
    ∃ ts, (reader a).Pulls ts (reader b) := by
  induction h with
  | exit => exact ⟨[], .done _⟩
  | next _ hconsumes _ ih =>
      obtain ⟨us, hbody⟩ := ih
      obtain ⟨v, vs, hpulls⟩ := hconsumes.pulls hbody
      exact ⟨v :: vs, hpulls⟩

end Loops

/-- The skipping loop goes up to the end of the expression. -/
theorem loops_skipToBoundary (hs : s.Ending) :
    Loops id (fun s => !s.atBoundary) advance s s.skipToBoundary := by
  induction hlength : s.upcoming.length using Nat.strongRecOn generalizing s with
  | ind length ih =>
      subst hlength
      rw [skipToBoundary_eq]
      split
      · next hend => exact .exit (by simp [hend])
      · next hinside =>
          have hconsumes :=
            Consumes.advance hs (ne_eof_of_atBoundary (Bool.eq_false_of_not_eq_true hinside))
          exact .next (by simp [hinside]) hconsumes
            (ih _ hconsumes.length_lt (hconsumes.ending hs) rfl)

theorem atBoundary_skipToBoundary (hs : s.Ending) : s.skipToBoundary.atBoundary := by
  simpa using (loops_skipToBoundary hs).exits

theorem consumes_giveUp (hs : s.Ending) (hinside : s.atBoundary = false)
    (cause : SyntaxError.Cause) : s.Consumes (s.giveUp cause).2 := by
  have hreport := hs.report cause
  have hskip : (s.report cause).skipToBoundary = (s.report cause).advance.skipToBoundary := by
    rw [skipToBoundary_eq, if_neg (by simp [hinside])]
  have hadvance := Consumes.advance hreport (by simpa using ne_eof_of_atBoundary hinside)
  rw [giveUp, hskip]
  exact (hadvance.within hreport (within_skipToBoundary _)).report

end Reader

open Reader

theorem consumes_readOperand {sub : ReadExpr} (hsub : Contained sub) {s : Reader} (hs : s.Ending)
    (hinside : s.atBoundary = false) : s.Consumes (readOperand sub s).2 := by
  rcases within_advance_readOperand hsub s with h | ⟨-, h⟩
  · rw [h]
    exact consumes_giveUp hs hinside _
  · exact (Consumes.advance hs (ne_eof_of_atBoundary hinside)).within hs h

/-- Every expression takes a token, however malformed it is and however little room is left. -/
theorem consumes_level (room : Nat) (power : Power) {s : Reader} (hs : s.Ending)
    (hinside : s.atBoundary = false) : s.Consumes ((level room).expr power s).2 := by
  cases room with
  | zero => exact consumes_giveUp hs hinside _
  | succ room =>
      have hoperand := consumes_readOperand (within_level room).1 hs hinside
      rw [level_expr_succ]
      exact hoperand.within hs ((within_level room).2 _ _ _)

/-- One round of the loop over the items of a list: an item and the comma behind it are read. -/
def itemRound {α : Type} (item : Reader → α × Reader) (a : List α × Reader) : List α × Reader :=
  (a.1 ++ [(item a.2).1], readComma (item a.2).2)

/-- The loop over the items of a list, from the items read so far on. -/
abbrev ItemLoop {α : Type} (item : Reader → α × Reader) :
    List α × Reader → List α × Reader → Prop :=
  Loops Prod.snd (fun a => !atListEnd a.2) (itemRound item)

/-- A list is read by its loop: the number of tokens that are left bounds the number of rounds. -/
theorem itemLoop_readItems {α : Type} {item : Reader → α × Reader}
    (hitem : ∀ s : Reader, s.Ending → s.atBoundary = false → s.Consumes (item s).2)
    {bound : Nat} {s : Reader} (hs : s.Ending) (hbound : s.upcoming.length ≤ bound)
    (front : List α) :
    ItemLoop item (front, s)
      (front ++ (readItems item bound s).1, (readItems item bound s).2) := by
  induction bound generalizing s front with
  | zero =>
      have hnil := List.length_eq_zero_iff.mp (Nat.le_zero.mp hbound)
      have heof : s.current.kind = .eof := by
        by_contra hne
        obtain ⟨u, us, hupcoming⟩ := hs.exists_upcoming hne
        simp [hupcoming] at hnil
      rw [readItems, List.append_nil]
      exact .exit (by simp [atListEnd, atBoundary, at?, heof])
  | succ bound ih =>
      by_cases hend : atListEnd s
      · rw [readItems_of_atListEnd hend, List.append_nil]
        exact .exit (by simp [hend])
      · have hinside : s.atBoundary = false := by
          cases h : s.atBoundary <;> simp [atListEnd, h] at hend ⊢
        have hround : s.Consumes (itemRound item (front, s)).2 :=
          (hitem s hs hinside).within hs (within_readComma _)
        have hothers := ih (hround.ending hs)
          (Nat.le_of_lt_succ (Nat.lt_of_lt_of_le hround.length_lt hbound)) (front ++ [(item s).1])
        rw [List.append_assoc] at hothers
        rw [readItems_succ hend]
        exact .next (by simp [hend]) hround hothers

theorem consumes_readOption (room : Nat) {s : Reader} (hs : s.Ending)
    (hinside : s.atBoundary = false) : s.Consumes (readOption (level room).expr s).2 := by
  have hsub := (within_level room).1
  have hpattern := consumes_level room .none hs hinside
  have hequal : Within ((level room).expr .none s).2
      (((level room).expr .none s).2.expect .equal) := within_expect _ (by simp)
  exact hpattern.within hs (hequal.trans (hsub .none _))

/-- One round of the loop that extends an operand: without room it is given up, and otherwise an
extension is read and takes one level of the room. -/
def climbRound (power : Power) (a : Nat × Expr × Reader) : Nat × Expr × Reader :=
  match a.1, extension? power a.2.2 with
  | 0, _ => (0, a.2.2.giveUp .nestedTooDeeply)
  | room + 1, none => (room + 1, a.2)
  | room + 1, some ext => (room, readExtension (level (room + 1)).expr ext a.2.1 a.2.2)

/-- The loop that extends an operand, from the room, the operand and the state on. -/
abbrev ClimbLoop (power : Power) : Nat × Expr × Reader → Nat × Expr × Reader → Prop :=
  Loops (fun a => a.2.2) (fun a => (extension? power a.2.2).isSome) (climbRound power)

theorem climbLoop_climb (power : Power) (room : Nat) (lhs : Expr) {s : Reader} (hs : s.Ending) :
    ∃ left, ClimbLoop power (room, lhs, s) (left, (level room).climb power lhs s) := by
  induction room generalizing lhs s with
  | zero =>
      cases hext : extension? power s with
      | none =>
          rw [level_climb_of_none hext]
          exact ⟨0, .exit (by simp [hext])⟩
      | some ext =>
          have hround := consumes_giveUp hs (atBoundary_of_extension? hext) .nestedTooDeeply
          have hend := atBoundary_skipToBoundary (hs.report .nestedTooDeeply)
          rw [level_climb_zero_of_some hext]
          refine ⟨0, .next (by simp [hext]) hround (.exit ?_)⟩
          rw [Option.isSome_eq_false_iff, Option.isNone_iff_eq_none]
          by_contra hnext
          obtain ⟨next, hnext⟩ := Option.ne_none_iff_exists'.mp hnext
          exact Bool.eq_false_iff.mp (atBoundary_of_extension? hnext) hend
  | succ room ih =>
      cases hext : extension? power s with
      | none =>
          rw [level_climb_of_none hext]
          exact ⟨room + 1, .exit (by simp [hext])⟩
      | some ext =>
          have hadvance :=
            Consumes.advance hs (ne_eof_of_atBoundary (atBoundary_of_extension? hext))
          have hround := hadvance.within hs
            (within_advance_readExtension (within_level (room + 1)).1 ext lhs s)
          obtain ⟨left, hothers⟩ :=
            ih (readExtension (level (room + 1)).expr ext lhs s).1 (hround.ending hs)
          have hbody : climbRound power (room + 1, lhs, s) =
              (room, readExtension (level (room + 1)).expr ext lhs s) := by
            simp [climbRound, hext]
          rw [level_climb_succ_of_some hext]
          exact ⟨left, .next (by simp [hext]) (by rwa [hbody]) (by rwa [hbody])⟩

theorem exists_pulls_closeExpr {s : Reader} (hs : s.Ending) : ∃ ts, s.Pulls ts (closeExpr s) := by
  have close : ∀ {t : Reader}, t.Ending →
      ∃ ts, t.Pulls ts (if t.at? .leaveExpr then t.advance else t) := by
    intro t ht
    split
    · next hat =>
        obtain ⟨u, us, hpulls⟩ := Consumes.advance ht (by simp [at?_iff.mp hat])
        exact ⟨_, hpulls⟩
    · exact ⟨[], .done t⟩
  unfold closeExpr
  split
  · exact close hs
  · have hreport := hs.report (.expected .leaveExpr)
    obtain ⟨ts, hskip⟩ := (within_skipToBoundary _).exists_pulls hreport
    obtain ⟨us, hclose⟩ := close (hskip.ending hreport)
    exact ⟨_, .report _ (hskip.trans hclose)⟩

theorem consumes_readFragment {s : Reader} (hs : s.Ending) (hne : s.current.kind ≠ .eof) :
    s.Consumes (readFragment s).2 := by
  have hadvance := Consumes.advance hs hne
  unfold readFragment
  split
  · exact hadvance
  · have hexpr := hadvance.within hs (within_readExpr s.advance)
    obtain ⟨ts, hclose⟩ := exists_pulls_closeExpr (hexpr.ending hs)
    exact hexpr.pulls hclose
  · exact (Consumes.advance (hs.report .unexpected) (by simpa using hne)).report

/-- One round of the loop over the fragments of a template. -/
def fragmentRound (a : Template × Reader) : Template × Reader :=
  (a.1 ++ [(readFragment a.2).1], (readFragment a.2).2)

/-- The loop over the fragments of a template, from those read so far on. -/
abbrev FragmentLoop : Template × Reader → Template × Reader → Prop :=
  Loops Prod.snd (fun a => !a.2.at? .eof) fragmentRound

/-- A state with the same errors as another one, and the same tokens in front of some others. -/
structure Extends (beyond : List Token) (s s' : Reader) : Prop where
  tokens : s'.tokens = s.tokens ++ beyond
  errors : s'.errors = s.errors

namespace Extends

variable {beyond : List Token} {s s' : Reader}

theorem current (h : Extends beyond s s') : s'.current = s.current :=
  (List.cons.inj h.tokens).1

theorem advance (h : Extends beyond s s') (hne : s.upcoming ≠ []) :
    Extends beyond s.advance s'.advance := by
  refine ⟨?_, by rw [advance_errors, advance_errors, h.errors]⟩
  rw [tokens_advance_of_cons h.tokens (by simp [hne]), tokens_advance_of_cons rfl hne]
  rfl

/-- At the end of the input the others are left. -/
theorem upcoming (h : Extends beyond s s') (hs : Token.Sectioned s.tokens)
    (heof : s'.current.kind = .eof) : s'.upcoming = beyond := by
  rw [h.current] at heof
  rcases hs.of_cons with ⟨-, hnil⟩ | ⟨hkind, -⟩ | ⟨hkind, -⟩
  · have hupcoming : s'.upcoming = s.upcoming ++ beyond := (List.cons.inj h.tokens).2
    rwa [hnil] at hupcoming
  · simp [heof] at hkind
  · simp [heof] at hkind

/-- What is behind the end of the input makes no difference to a fragment. -/
theorem fragment (h : Extends beyond s s') (hs : Token.Sectioned s.tokens)
    (hne : s.current.kind ≠ .eof) : (readFragment s').1 = (readFragment s).1 ∧
      Extends beyond (readFragment s).2 (readFragment s').2 := by
  rcases hs.of_cons with ⟨heof, -⟩ | ⟨hkind, hrest⟩ | ⟨hkind, henclosed⟩
  · exact absurd heof hne
  · simp only [readFragment, h.current, hkind, true_and]
    exact h.advance hrest.ne_nil
  · obtain ⟨inner, stop, rest, hupcoming, hinner, hstop⟩ := henclosed
    have htokens : s.tokens = s.current :: inner ++ stop :: rest := by
      rw [Reader.tokens, hupcoming, List.cons_append]
    have htokens' : s'.tokens = s.current :: inner ++ stop :: (rest ++ beyond) := by
      rw [h.tokens, htokens]
      simp only [List.append_assoc, List.cons_append]
    have hbehind : stop.kind = .leaveExpr → rest ≠ [] ∧ rest ++ beyond ≠ [] := by
      intro hleave
      simp [hstop.rest_ne_nil hleave]
    -- The expression stands at the same place in both inputs, so it is moved by nothing.
    obtain ⟨hfragment, herrors, hread, hread'⟩ := Relocation.readFragment_braces
      (r := ⟨0, stop, rest, rest ++ beyond, [], hstop.kind, by simp⟩) hkind hinner htokens
      (by rwa [Token.map_shift_zero])
      (by rw [SyntaxError.map_shift_zero, List.append_nil, h.errors]) hbehind
    rw [Fragment.shift_zero] at hfragment
    rw [SyntaxError.map_shift_zero, List.append_nil] at herrors
    refine ⟨hfragment, ?_, herrors⟩
    rw [hread, hread', apply_ite (· ++ beyond)]
    rfl

end Extends

theorem ending_start (source : String) (beyond : List Token) :
    (Reader.start (Token.scan source ++ beyond)).Ending := by
  obtain ⟨us, hscan, -⟩ := (Token.tiles_scan source).exists_end
  refine ⟨.endOfInput (0 + Token.byteSize source.toList), ?_, rfl⟩
  rw [tokens_start (by simp [hscan]), hscan]
  simp

/-- A template is read by its loop, which does not depend on what is behind the end of the input.
There is at most one round for each token that starts a fragment. -/
theorem fragmentLoop_readFragments {beyond : List Token} {bound : Nat} {s s' : Reader}
    (hs : Token.Sectioned s.tokens)
    (hbound : (s.tokens.filter Token.startsFragment).length ≤ bound)
    (h : Extends beyond s s') (hs' : s'.Ending) (front : Template) :
    ∃ final, FragmentLoop (front, s') (front ++ (readFragments bound s).1, final) ∧
      Extends beyond (readFragments bound s).2 final := by
  induction bound generalizing s s' front with
  | zero =>
      have heof : s.current.kind = .eof := by
        by_contra hne
        obtain ⟨-, -, hfilter⟩ := readFragment_sectioned hs hne
        simp [hfilter] at hbound
      rw [readFragments, List.append_nil]
      exact ⟨s', .exit (by simp [at?, h.current, heof]), h⟩
  | succ bound ih =>
      rw [readFragments]
      split
      · next hat =>
          rw [at?_iff] at hat
          rw [List.append_nil]
          exact ⟨s', .exit (by simp [at?, h.current, hat]), h⟩
      · next hat =>
          rw [at?_iff] at hat
          have hround := consumes_readFragment hs' (by rwa [h.current])
          obtain ⟨hfragment, hnext⟩ := h.fragment hs hat
          obtain ⟨-, hrest, hfilter⟩ := readFragment_sectioned hs hat
          rw [hfilter, List.length_cons] at hbound
          obtain ⟨final, hothers, hfinal⟩ := ih hrest (Nat.le_of_succ_le_succ hbound) hnext
            (hround.ending hs') (front ++ [(readFragment s').1])
          rw [List.append_assoc, hfragment] at hothers
          refine ⟨final, .next (by simp [at?, h.current, hat]) hround ?_, hfinal⟩
          rwa [fragmentRound, hfragment]

/-- Reading a template ends, and no token is pulled in vain. For every source, whatever would come
behind the end of its input, the loop over the fragments ends with what is read and with what is
wrong with it; until then the tokens of the source are pulled, each of them once and in their order,
and none behind the end of the input. And wherever the end of the input is ahead, the loops that
skip to the end of an expression, that read arguments and options, and that extend an operand end
with the result of their functions. In each round of each of the loops at least one token is
pulled. -/
theorem read_pulls_each_token_once (source : String) (beyond : List Token) :
    (∃ pulled final,
      Token.scan source = (Reader.start (Token.scan source ++ beyond)).current :: pulled ∧
      (Reader.start (Token.scan source ++ beyond)).Pulls pulled final ∧
      final.current.kind = .eof ∧ final.upcoming = beyond ∧
      FragmentLoop ([], .start (Token.scan source ++ beyond)) ((read source).1, final) ∧
      (read source).2 = final.errors.reverse) ∧
    ∀ s : Reader, s.Ending →
      Loops id (fun s => !s.atBoundary) advance s s.skipToBoundary ∧
      ∀ room,
        ItemLoop ((level room).expr .none) ([], s)
          (readArgs (level room).expr s.upcoming.length s) ∧
        ItemLoop (readOption (level room).expr) ([], s)
          (readOptions (level room).expr s.upcoming.length s) ∧
        ∀ power lhs, ∃ left,
          ClimbLoop power (room, lhs, s) (left, (level room).climb power lhs s) := by
  refine ⟨?_, fun s hs => ⟨loops_skipToBoundary hs, fun room => ⟨?_, ?_, fun power lhs =>
    climbLoop_climb power room lhs hs⟩⟩⟩
  · have hsections := Token.sectioned_scan source
    have htokens := tokens_start hsections.ne_nil
    have htokens' : (Reader.start (Token.scan source ++ beyond)).tokens =
        Token.scan source ++ beyond := tokens_start (by simp [hsections.ne_nil])
    have hextends : Extends beyond (.start (Token.scan source))
        (.start (Token.scan source ++ beyond)) :=
      ⟨by rw [htokens, htokens'], by rw [errors_start, errors_start]⟩
    have hcount : ((Reader.start (Token.scan source)).tokens.filter Token.startsFragment).length ≤
        (Token.scan source).length := by
      rw [htokens]
      exact List.length_filter_le _ _
    obtain ⟨final, hloop, hfinal⟩ := fragmentLoop_readFragments (htokens ▸ hsections) hcount
      hextends (ending_start source beyond) []
    have heof : final.current.kind = .eof := by simpa [at?] using hloop.exits
    have hrest : final.upcoming = beyond :=
      hfinal.upcoming (sectioned_readFragments _ (htokens ▸ hsections)) heof
    obtain ⟨pulled, hpulls⟩ := hloop.exists_pulls
    refine ⟨pulled, final, ?_, hpulls, heof, hrest, hloop, ?_⟩
    · have hupcoming := hpulls.upcoming
      rw [hrest] at hupcoming
      rw [Reader.tokens, hupcoming, ← List.cons_append] at htokens'
      exact (List.append_cancel_right htokens').symm
    · rw [hfinal.errors]
      rfl
  · rw [readArgs_eq]
    exact itemLoop_readItems (fun s => consumes_level room .none) hs (Nat.le_refl _) []
  · rw [readOptions_eq]
    exact itemLoop_readItems (fun s => consumes_readOption room) hs (Nat.le_refl _) []

/-- Behind the comma a call ends without another argument and without its parenthesis, and the
tokens that would come next are still there. -/
theorem read_pulls_each_token_once_of_open_call :
    (∃ final, (Reader.start (Token.scan "\x7bf(1,\x7d" ++ [⟨.ident, "g", 7⟩])).Pulls
        [⟨.ident, "f", 1⟩, ⟨.lParen, "(", 2⟩, ⟨.int, "1", 3⟩, ⟨.comma, ",", 4⟩,
          ⟨.leaveExpr, "\x7d", 5⟩, .endOfInput 6] final ∧
      final.upcoming = [⟨.ident, "g", 7⟩]) ∧
    Ending ⟨⟨.int, "1", 3⟩, [.endOfInput 4], []⟩ ∧
    ItemLoop ((level 1).expr .none) ([], ⟨⟨.int, "1", 3⟩, [.endOfInput 4], []⟩)
      ([.literal .int "1"], ⟨.endOfInput 4, [], [⟨.endOfInput 4, .expected .comma⟩]⟩) := by
  obtain ⟨⟨pulled, final, hscan, hpulls, -, hrest, -⟩, hloops⟩ :=
    read_pulls_each_token_once "\x7bf(1,\x7d" [⟨.ident, "g", 7⟩]
  have hpulled := congrArg List.tail hscan
  have hending : Ending ⟨⟨.int, "1", 3⟩, [.endOfInput 4], []⟩ :=
    ⟨.endOfInput 4, by simp [Reader.tokens], rfl⟩
  refine ⟨⟨final, ?_, hrest⟩, hending, ((hloops _ hending).2 1).1⟩
  rw [List.tail_cons] at hpulled
  rwa [← hpulled] at hpulls

end Phrasebook.Template
