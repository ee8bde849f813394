import Mathlib
import Phrasebook.Proofs.Template.Seam

/-!
# Templates in a row

A template that is written behind another one is read as on its own, moved by the length of what
stands in front of it, as long as that ends outside of all braces and not with a backslash
(`read_append`). So a source can be read in parts, and errors in one part do not change what is read
of the others.
-/

namespace Phrasebook.Template

open Reader

/-- The fragments of a source in front of those of another one. Two texts that meet are one. -/
def join : Template → Template → Template
  | [], gs => gs
  | [.text x], .text y :: gs => .text (x ++ y) :: gs
  | f :: fs, gs => f :: join fs gs

theorem join_expr (e : Expr) (fs gs : Template) :
    join (.expr e :: fs) gs = .expr e :: join fs gs := by
  cases fs <;> rfl

theorem join_text {x : String} {fs gs : Template} (h : fs ≠ [] ∨ ∀ y, .text y ∉ gs.head?) :
    join (.text x :: fs) gs = .text x :: join fs gs := by
  rw [join]
  rintro _ y gs rfl - rfl
  simp at h

/-- Fragments are read one after the other, from one state up to another one. -/
inductive Reads : Reader → Template → Reader → Prop where
  | nil (s : Reader) : Reads s [] s
  | cons {s t : Reader} {f : Fragment} {fs : Template} : s.current.kind ≠ .eof →
      (readFragment s).1 = f → Reads (readFragment s).2 fs t → Reads s (f :: fs) t

namespace Reads

variable {s t : Reader} {fs : Template}

theorem text (hkind : s.current.kind = .text) (h : Reads s.advance fs t) :
    Reads s (.text s.current.lexeme :: fs) t := by
  have hread : readFragment s = (.text s.current.lexeme, s.advance) := by
    simp only [readFragment, hkind]
  exact .cons (by simp [hkind]) (by rw [hread]) (by rwa [hread])

/-- Only a text is read as one. -/
theorem kind_of_text {x : String} (h : Reads s (.text x :: fs) t) : s.current.kind = .text := by
  cases h with
  | cons hkind hread h =>
      unfold readFragment at hread
      split at hread
      · assumption
      · cases hread
      · cases hread

/-- A run up to the end of the input is what is read. -/
theorem readFragments_eq (h : Reads s fs t) (hs : Token.Sectioned s.tokens)
    (ht : t.current.kind = .eof) {bound : Nat}
    (hbound : (s.tokens.filter Token.startsFragment).length ≤ bound) :
    readFragments bound s = (fs, t) := by
  induction h generalizing bound with
  | nil =>
      cases bound with
      | zero => rfl
      | succ bound => rw [readFragments, if_pos (at?_iff.mpr ht)]
  | cons hkind hread h ih =>
      obtain ⟨-, hrest, hfilter⟩ := readFragment_sectioned hs hkind
      rw [hfilter, List.length_cons] at hbound
      cases bound with
      | zero => omega
      | succ bound =>
          have hothers := ih hrest ht (Nat.le_of_succ_le_succ hbound)
          rw [readFragments, if_neg (mt at?_iff.mp hkind)]
          simp only [hread, hothers]

theorem read_eq {source : String} (h : Reads (.start (Token.scan source)) fs t)
    (ht : t.current.kind = .eof) : read source = (fs, t.errors.reverse) := by
  have hsections := Token.sectioned_scan source
  have htokens := tokens_start hsections.ne_nil
  have hcount : ((Reader.start (Token.scan source)).tokens.filter Token.startsFragment).length ≤
      (Token.scan source).length := by
    rw [htokens]
    exact List.length_filter_le _ _
  have hrun := h.readFragments_eq (htokens ▸ hsections) ht hcount
  simp only [read, ofTokens, hrun]

end Reads

/-- An expression in braces is read as the same fragment wherever it stands, and what is read next
is still the same at both places. -/
theorem readFragment_moved {us : List Token} {bytes : Nat} {older : List SyntaxError}
    (holder : ∀ e ∈ older, e.token.offset < bytes) {s s' : Reader}
    (hkind : s.current.kind = .enterExpr) (hus : Token.Enclosed us)
    (hs : s.tokens = s.current :: us) (hs' : s'.tokens = (s.current :: us).map (Token.shift bytes))
    (herrors : s'.errors = s.errors.map (SyntaxError.shift bytes) ++ older) :
    (readFragment s').1 = (readFragment s).1.shift bytes ∧
      (readFragment s').2.errors =
        (readFragment s).2.errors.map (SyntaxError.shift bytes) ++ older ∧
      ∃ next, next.length ≤ us.length ∧ Token.Sectioned next ∧
        (readFragment s).2.tokens = next ∧
        (readFragment s').2.tokens = next.map (Token.shift bytes) := by
  obtain ⟨inner, stop, rest, rfl, hinner, hstop⟩ := hus
  have hbehind : stop.kind = .leaveExpr → rest ≠ [] ∧ rest.map (Token.shift bytes) ≠ [] := by
    intro hleave
    simpa using hstop.rest_ne_nil hleave
  obtain ⟨hfragment, herrors, htokens, htokens'⟩ := Relocation.readFragment_braces
    (r := ⟨bytes, stop, rest, rest.map (Token.shift bytes), older, hstop.kind, holder⟩)
    hkind hinner hs (by simpa using hs') herrors hbehind
  refine ⟨hfragment, herrors, _, ?_, hstop.sectioned, htokens, ?_⟩
  · rw [List.length_append, List.length_cons]
    split
    · omega
    · rw [List.length_cons]
      omega
  · rw [htokens', apply_ite (List.map (Token.shift bytes)), List.map_cons]

/-- What is read of a template does not depend on what stands in front of it. -/
theorem reads_moved {us : List Token} (hus : Token.Sectioned us) {bytes : Nat}
    {older : List SyntaxError} (holder : ∀ e ∈ older, e.token.offset < bytes) {s s' : Reader}
    (hs : s.tokens = us) (hs' : s'.tokens = us.map (Token.shift bytes))
    (herrors : s'.errors = s.errors.map (SyntaxError.shift bytes) ++ older) :
    ∃ fs t t', Reads s fs t ∧ Reads s' (fs.map (Fragment.shift bytes)) t' ∧
      t.current.kind = .eof ∧ t'.current.kind = .eof ∧
      t'.errors = t.errors.map (SyntaxError.shift bytes) ++ older := by
  induction hlength : us.length using Nat.strongRecOn generalizing us s s' with
  | ind length ih =>
      subst hlength
      cases us with
      | nil => exact absurd rfl hus.ne_nil
      | cons u us =>
          obtain ⟨rfl, -⟩ := List.cons.inj hs
          have hcurrent : s'.current = s.current.shift bytes := (List.cons.inj hs').1
          rcases hus.of_cons with ⟨heof, -⟩ | ⟨hkind, hrest⟩ | ⟨hkind, hrest⟩
          · refine ⟨[], s, s', .nil s, .nil s', heof, ?_, herrors⟩
            rw [hcurrent, Token.shift_kind, heof]
          · have htokens := tokens_advance_of_cons hs hrest.ne_nil
            have htokens' := tokens_advance_of_cons hs' (by simpa using hrest.ne_nil)
            obtain ⟨fs, t, t', hread, hread', hend⟩ := ih us.length (by simp) hrest htokens htokens'
              (by rwa [advance_errors, advance_errors]) rfl
            refine ⟨.text s.current.lexeme :: fs, t, t', .text hkind hread, ?_, hend⟩
            have htext := Reads.text (by rwa [hcurrent, Token.shift_kind]) hread'
            rwa [hcurrent, Token.shift_lexeme] at htext
          · obtain ⟨hfragment, herrors, next, hlength, hnext, htokens, htokens'⟩ :=
              readFragment_moved holder hkind hrest hs hs' herrors
            obtain ⟨fs, t, t', hread, hread', hend⟩ :=
              ih next.length (Nat.lt_succ_of_le hlength) hnext htokens htokens' herrors rfl
            refine ⟨_, t, t', .cons (by simp [hkind]) rfl hread, ?_, hend⟩
            exact .cons (by simp [hcurrent, hkind]) hfragment hread'

/-- From three states two templates are read, and both of them in a row: the fragments are joined,
and so are the errors, which are kept with the latest one first. -/
def ReadsJoined (bytes : Nat) (s v s' : Reader) : Prop :=
  ∃ fs t gs w t', Reads s fs t ∧ Reads v gs w ∧
    Reads s' (join fs (gs.map (Fragment.shift bytes))) t' ∧
    t.current.kind = .eof ∧ w.current.kind = .eof ∧ t'.current.kind = .eof ∧
    t'.errors = w.errors.map (SyntaxError.shift bytes) ++ t.errors

section Joined

variable {ts us : List Token} {bytes offset : Nat} {s s' v : Reader}

theorem joined_nil (hus : Token.Sectioned us) (hs : s.current.kind = .eof) (hv : v.tokens = us)
    (hs' : s'.tokens = us.map (Token.shift bytes)) (hnone : v.errors = [])
    (herrors : s'.errors = s.errors) (hbefore : ∀ e ∈ s.errors, e.token.offset < bytes) :
    ReadsJoined bytes s v s' := by
  have hmoved : s'.errors = v.errors.map (SyntaxError.shift bytes) ++ s.errors := by
    rw [hnone, herrors]
    rfl
  obtain ⟨gs, w, t', hread, hread', hw, ht', herrors'⟩ := reads_moved hus hbefore hv hs' hmoved
  exact ⟨[], s, gs, w, t', .nil s, hread, hread', hs, hw, ht', herrors'⟩

/-- Where a text does not meet another one, it is a fragment of its own. -/
theorem join_text_of_reads {fs gs : Template} {t w : Reader} (hts : Token.Balanced ts)
    (hs : s.tokens = ts ++ [Token.endOfInput offset]) (hv : v.tokens = us) (hread : Reads s fs t)
    (ht : t.current.kind = .eof) (hreadv : Reads v gs w)
    (h : ts ≠ [] ∨ ∀ u ∈ us.head?, u.kind ≠ .text) (x : String) :
    join (.text x :: fs) (gs.map (Fragment.shift bytes)) =
      .text x :: join fs (gs.map (Fragment.shift bytes)) := by
  apply join_text
  rcases h with hne | hhead
  · left
    rintro rfl
    cases hread
    cases hts with
    | nil => exact hne rfl
    | text hkind => simp [(List.cons.inj hs).1, hkind] at ht
    | braces hkind => simp [(List.cons.inj hs).1, hkind] at ht
  · right
    intro y hy
    rw [Option.mem_def, List.head?_map, Option.map_eq_some_iff] at hy
    obtain ⟨g, hg, hshift⟩ := hy
    obtain ⟨gs, rfl⟩ := List.head?_eq_some_iff.mp hg
    cases g with
    | expr => cases hshift
    | text y => exact hhead v.current (by rw [← hv]; rfl) hreadv.kind_of_text

/-- Two texts that meet are read as one. -/
theorem joined_meet (hus : Token.Sectioned us)
    (hs : s.tokens = [s.current, Token.endOfInput offset]) (hkind : s.current.kind = .text)
    (hv : v.tokens = us) (hmeet : v.current.kind = .text)
    (hs' : s'.tokens = Token.splice [s.current] (us.map (Token.shift bytes)))
    (hnone : v.errors = []) (herrors : s'.errors = s.errors)
    (hbefore : ∀ e ∈ s.errors, e.token.offset < bytes) : ReadsJoined bytes s v s' := by
  subst hv
  rcases hus.of_cons with ⟨hkind', -⟩ | ⟨-, hus⟩ | ⟨hkind', -⟩
  · simp [hmeet] at hkind'
  · have hboth : s.current.kind = .text ∧ (v.current.shift bytes).kind = .text := ⟨hkind, hmeet⟩
    rw [Reader.tokens.eq_1 v, List.map_cons, Token.splice, if_pos hboth] at hs'
    have hcurrent := (List.cons.inj hs').1
    have hend : s.advance.current.kind = .eof := by
      simp [(List.cons.inj (tokens_advance_of_cons hs (List.cons_ne_nil _ _))).1]
    have hmoved : s'.advance.errors =
        v.advance.errors.map (SyntaxError.shift bytes) ++ s.errors := by
      rw [advance_errors, advance_errors, hnone, herrors]
      rfl
    obtain ⟨gs, w, t', hread, hread', hw, ht', herrors'⟩ :=
      reads_moved hus hbefore (tokens_advance_of_cons rfl hus.ne_nil)
        (tokens_advance_of_cons hs' (by simpa using hus.ne_nil)) hmoved
    refine ⟨[.text s.current.lexeme], s.advance, .text v.current.lexeme :: gs, w, t',
      .text hkind (.nil _), .text hmeet hread, ?_, hend, hw, ht', ?_⟩
    · have htext := Reads.text (by rw [hcurrent]) hread'
      rwa [hcurrent] at htext
    · rwa [advance_errors]
  · simp [hmeet] at hkind'

end Joined

/-- Two templates in a row are read one after the other. The errors of the first one are in front of
all tokens of the second one, so none of them keeps one of the second template from being
reported. -/
theorem reads_join {ts us : List Token} (hts : Token.Balanced ts) (hus : Token.Sectioned us)
    {bytes offset : Nat} (hoffset : ∀ t ∈ ts, t.offset < bytes) {s s' v : Reader}
    (hs : s.tokens = ts ++ [Token.endOfInput offset])
    (hs' : s'.tokens = Token.splice ts (us.map (Token.shift bytes))) (hv : v.tokens = us)
    (hnone : v.errors = []) (herrors : s'.errors = s.errors)
    (hbefore : ∀ e ∈ s.errors, e.token.offset < bytes) :
    ReadsJoined bytes s v s' := by
  induction hts generalizing s s' with
  | nil => exact joined_nil hus (by simp [(List.cons.inj hs).1]) hv hs' hnone herrors hbefore
  | @text first ts hkind hts ih =>
      obtain ⟨rfl, -⟩ := List.cons.inj hs
      by_cases hmeet : ts ≠ [] ∨ ∀ u ∈ us.head?, u.kind ≠ .text
      · have hadvance := tokens_advance_of_cons hs (by simp)
        have hshifted : ts ≠ [] ∨ ∀ u ∈ (us.map (Token.shift bytes)).head?, u.kind ≠ .text := by
          simpa using hmeet
        rw [Token.splice_cons (.inr hshifted)] at hs'
        have hcurrent : s'.current = s.current := (List.cons.inj hs').1
        obtain ⟨fs, t, gs, w, t', hread, hreadv, hread', ht, hends⟩ := ih
          (fun t ht => hoffset t (List.mem_cons_of_mem _ ht)) hadvance
          (tokens_advance_of_cons hs' (Token.splice_ne_nil (by simpa using hus.ne_nil)))
          (by rw [advance_errors, advance_errors, herrors]) (by rwa [advance_errors])
        refine ⟨_, t, gs, w, t', .text hkind hread, hreadv, ?_, ht, hends⟩
        rw [join_text_of_reads hts hadvance hv hread ht hreadv hmeet, ← hcurrent]
        exact .text (by rwa [hcurrent]) hread'
      · rw [not_or, not_not] at hmeet
        obtain ⟨rfl, hhead⟩ := hmeet
        refine joined_meet hus hs hkind hv ?_ hs' hnone herrors hbefore
        subst hv
        simpa [Reader.tokens] using hhead
  | @braces enter leave inner ts henter hinner hleave hts ih =>
      have hbehind : leave.kind = .leaveExpr → ts ++ [Token.endOfInput offset] ≠ [] ∧
          Token.splice ts (us.map (Token.shift bytes)) ≠ [] := fun _ =>
        ⟨by simp, Token.splice_ne_nil (by simpa using hus.ne_nil)⟩
      rw [Token.splice_append_cons (by simp [hleave])] at hs'
      have hs : s.tokens = enter :: inner ++ leave :: (ts ++ [Token.endOfInput offset]) := by
        simpa using hs
      -- The first template stands at the same place in both sources, so it is moved by nothing.
      obtain ⟨hfragment, herrors', htokens, htokens'⟩ := Relocation.readFragment_braces
        (r := ⟨0, leave, ts ++ [Token.endOfInput offset],
          Token.splice ts (us.map (Token.shift bytes)), [], .inl hleave, by simp⟩)
        henter hinner hs (by rwa [Token.map_shift_zero])
        (by rw [SyntaxError.map_shift_zero, List.append_nil, herrors]) hbehind
      rw [SyntaxError.map_shift_zero, List.append_nil] at herrors'
      rw [Fragment.shift_zero] at hfragment
      have hkind : s.current.kind = .enterExpr := (List.cons.inj hs).1 ▸ henter
      have hkind' : s'.current.kind = .enterExpr := (List.cons.inj hs').1 ▸ henter
      have hinside : ∀ e ∈ (readFragment s).2.errors, e.token.offset < bytes := by
        intro e he
        have hfaces : s.advance.Faces inner leave (ts ++ [Token.endOfInput offset]) :=
          ⟨tokens_advance_of_cons hs (by simp), hinner, .inl hleave⟩
        rcases errors_readFragment_braces hkind hfaces e he with he | hmem
        · exact hbefore e he
        · have hmem := List.mem_cons_of_mem enter (List.mem_append_left ts hmem)
          exact hoffset e.token (by simpa using hmem)
      obtain ⟨fs, t, gs, w, t', hread, hreadv, hread', hends⟩ := ih
        (fun t ht => hoffset t (by simp [ht])) (htokens.trans (if_pos hleave))
        (htokens'.trans (if_pos hleave)) herrors' hinside
      obtain ⟨e, he⟩ : ∃ e, (readFragment s).1 = .expr e := by simp [readFragment, hkind]
      refine ⟨.expr e :: fs, t, gs, w, t', .cons (by simp [hkind]) he hread, hreadv, ?_, hends⟩
      rw [join_expr]
      exact .cons (by simp [hkind']) (hfragment.trans he) hread'

/-- Two sources in a row are read as they are on their own, if the first one ends outside of all
braces and not with a backslash: the fragments are those of both of them, apart from two texts that
meet, and so are the errors, with the places in the second source moved behind the first one. -/
theorem read_append {a : String} (b : String)
    (hmode : Token.Mode.text.behind (Token.scan a) = .text) (hend : ¬ ['\\'] <:+ a.toList) :
    read (a ++ b) =
      (join (read a).1 ((read b).1.map (Fragment.shift a.utf8ByteSize)),
        (read a).2 ++ (read b).2.map (SyntaxError.shift a.utf8ByteSize)) := by
  have hsections := Token.sectioned_scan a
  obtain ⟨hbalanced, offset, htokens⟩ := hsections.balanced hmode
  have hoffset : ∀ t ∈ (Token.scan a).dropLast, t.offset < a.utf8ByteSize := by
    have hbefore := (Token.tiles_scan a).offset_lt
    rwa [Nat.zero_add, Token.byteSize_toList] at hbefore
  have hseam := Token.scan_append b hmode hend
  have hs := tokens_start hsections.ne_nil
  have hv := tokens_start (Token.sectioned_scan b).ne_nil
  have hs' := tokens_start (Token.sectioned_scan (a ++ b)).ne_nil
  obtain ⟨fs, t, gs, w, t', hread, hreadv, hread', ht, hw, ht', herrors⟩ :=
    reads_join hbalanced (Token.sectioned_scan b) hoffset (hs.trans htokens) (hs'.trans hseam) hv
      (errors_start _) (by rw [errors_start, errors_start]) (by simp)
  rw [hread.read_eq ht, hreadv.read_eq hw, hread'.read_eq ht', herrors, List.reverse_append,
    List.map_reverse]

theorem read_append_of_unclosed :
    Token.Mode.text.behind (Token.scan "Hi \x7bf(\x7d a") = .text ∧
      ¬ ['\\'] <:+ "Hi \x7bf(\x7d a".toList ∧
      read ("Hi \x7bf(\x7d a" ++ "nd \x7b]\x7d") =
        ([.text "Hi ", .expr (.call (.ident "f") []), .text " and ",
            .expr (.invalid ⟨.rBrack, "]", 13⟩ ⟨.leaveExpr, "\x7d", 14⟩)],
          [⟨⟨.leaveExpr, "\x7d", 6⟩, .expected .rParen⟩, ⟨⟨.rBrack, "]", 13⟩, .unexpected⟩]) := by
  have hmode : Token.Mode.text.behind (Token.scan "Hi \x7bf(\x7d a") = .text := by decide
  have hend : ¬ ['\\'] <:+ "Hi \x7bf(\x7d a".toList := by decide
  exact ⟨hmode, hend, (read_append _ hmode hend).trans rfl⟩

end Phrasebook.Template
