import Mathlib
import Phrasebook.Proofs.Catalog.History
import Phrasebook.Proofs.Text.Splitting

/-!
# The closest locale

For a list of candidates a catalog answers with the loaded locale that fits best: the tags in the
candidates are tried in order, and the first one decides whose language is that of some loaded
locale (`Catalog.closest_is_best`). If it is loaded itself, that is the answer, else its language
alone, and else the locale of that language that was loaded first.

All of this goes by what was loaded, as the log of the loads has it. A snapshot looks at its tables
in some places and at the order of its locales in others; they agree, since both come from the log.
-/

namespace Phrasebook

theorem find?_eraseDups {α : Type} [BEq α] [LawfulBEq α] [DecidableEq α] (p : α → Bool)
    (xs : List α) : xs.eraseDups.find? p = xs.find? p := by
  induction xs using List.reverseRecOn with
  | nil => rfl
  | append_singleton xs x ih =>
      rw [eraseDups_concat, List.find?_append]
      split
      · next hmem =>
          rw [ih]
          cases hfind : xs.find? p with
          | some y => rfl
          | none =>
              have hx : p x = false := by simpa using List.find?_eq_none.mp hfind x hmem
              simp [hx]
      · rw [List.find?_append, ih]

/-- Calls add to a log and take nothing away. -/
theorem Loading.subset_foldl_record (strict : Bool) (log : List Loaded)
    (calls : List (FileTree × Loading)) : log ⊆ calls.foldl (record strict) log := by
  induction calls generalizing log with
  | nil => exact List.Subset.refl log
  | cons call calls ih => exact List.Subset.trans (List.subset_append_left log _) (ih _)

namespace Snapshot

/-- The tags that are listed in candidates: what stands between commas, without the blanks around it
and unless nothing is left. -/
def listed (candidates : List String) : List String :=
  (((candidates.flatMap fun s => s.toList.splitOn ',').map fun cs =>
    (cs.dropWhile Text.isBlank).rdropWhile Text.isBlank).filter (· ≠ [])).map String.ofList

theorem tags_eq_listed (candidates : List String) : tags candidates = listed candidates := by
  have htrim : ∀ cs, Text.trim (.ofList cs) =
      .ofList ((cs.dropWhile Text.isBlank).rdropWhile Text.isBlank) := by
    intro cs
    rw [Text.trim, String.toList_ofList]
    rfl
  have hsplit : ∀ s : String, Text.split s "," = (s.toList.splitOn ',').map String.ofList := by
    intro s
    rw [Text.split, ← Text.splitChars_singleton]
    rfl
  have hempty : ∀ cs, (String.ofList cs != "") = decide (cs ≠ []) := by
    intro cs
    simp [bne, beq_eq_decide]
  simp only [tags, listed, hsplit, ← List.map_flatMap, List.map_map, List.filter_map,
    Function.comp_def, htrim, hempty]

theorem tags_append (candidates more : List String) :
    tags (candidates ++ more) = tags candidates ++ tags more := by
  simp [tags]

/-- Some loaded locale has the language of a tag, which is what stands before its first hyphen. -/
def SharesLanguage (loaded : List String) (tag : String) : Prop :=
  ∃ locale ∈ loaded, languageOf locale = languageOf tag

instance (loaded : List String) (tag : String) : Decidable (SharesLanguage loaded tag) :=
  inferInstanceAs (Decidable (∃ locale ∈ loaded, languageOf locale = languageOf tag))

/-- The loaded locale that fits a tag best. -/
inductive BestMatch (loaded : List String) (tag : String) : String → Prop where
  | tag : tag ∈ loaded → BestMatch loaded tag tag
  | language : tag ∉ loaded → languageOf tag ∈ loaded → BestMatch loaded tag (languageOf tag)
  /-- The locale of the language that was loaded first. -/
  | first {before after : List String} {locale : String} : tag ∉ loaded →
      languageOf tag ∉ loaded → loaded = before ++ locale :: after →
      languageOf locale = languageOf tag → (∀ l ∈ before, languageOf l ≠ languageOf tag) →
      BestMatch loaded tag locale

theorem toList_languageOf (locale : String) :
    (languageOf locale).toList = locale.toList.takeWhile (· != '-') :=
  String.toList_ofList

theorem ne_hyphen_of_mem_languageOf {locale : String} :
    ∀ c ∈ (languageOf locale).toList, (c != '-') = true := by
  rw [toList_languageOf]
  exact fun c hc => List.mem_takeWhile_imp (p := (· != '-')) hc

theorem languageOf_languageOf (tag : String) : languageOf (languageOf tag) = languageOf tag := by
  apply String.toList_inj.mp
  rw [toList_languageOf (languageOf tag), List.takeWhile_eq_self_iff]
  exact ne_hyphen_of_mem_languageOf

/-- A locale other than a language itself has that language exactly if it goes on with a hyphen
behind it. -/
theorem isPrefixOf_iff {tag locale : String} (h : locale ≠ languageOf tag) :
    (languageOf tag ++ "-").toList.isPrefixOf locale.toList ↔
      languageOf locale = languageOf tag := by
  rw [List.isPrefixOf_iff_prefix, String.toList_append]
  constructor
  · rintro ⟨rest, hrest⟩
    apply String.toList_inj.mp
    rw [toList_languageOf, ← hrest, List.append_assoc,
      List.takeWhile_append_of_pos ne_hyphen_of_mem_languageOf]
    exact List.append_nil _
  · intro hsame
    have hwhole :
        (languageOf tag).toList ++ locale.toList.dropWhile (· != '-') = locale.toList := by
      rw [← hsame, toList_languageOf, List.takeWhile_append_dropWhile]
    cases hdrop : locale.toList.dropWhile (· != '-') with
    | nil =>
        rw [hdrop, List.append_nil] at hwhole
        exact absurd (String.toList_inj.mp hwhole).symm h
    | cons c rest =>
        have hc : c = '-' := by
          have hne : locale.toList.dropWhile (· != '-') ≠ [] := by simp [hdrop]
          simpa [hdrop] using List.head_dropWhile_not (· != '-') hne
        rw [hdrop, hc] at hwhole
        exact ⟨rest, by rw [← hwhole]; simp⟩

variable {s : Snapshot} {log : List Loaded}

/-- What matches a tag depends only on the locales that were loaded. -/
theorem match?_eq (h : s.Describes log) (tag : String) :
    s.match? tag =
      if tag ∈ log.map (·.locale) then some tag
      else if languageOf tag ∈ log.map (·.locale) then some (languageOf tag)
      else (log.map (·.locale)).find? (languageOf · == languageOf tag) := by
  have hfind : languageOf tag ∉ log.map (·.locale) →
      (s.order.find? fun locale => (languageOf tag ++ "-").toList.isPrefixOf locale.toList) =
        (log.map (·.locale)).find? (languageOf · == languageOf tag) := by
    intro hlanguage
    rw [h.order, ← find?_eraseDups (languageOf · == languageOf tag)]
    apply List.find?_congr
    intro locale hlocale
    rw [Bool.eq_iff_iff, beq_iff_eq]
    apply isPrefixOf_iff
    rintro rfl
    exact hlanguage (List.mem_eraseDups.mp hlocale)
  simp only [match?, h.contains_iff]
  split
  · rfl
  · split
    · rfl
    · next hlanguage => exact hfind hlanguage

theorem match?_eq_none_iff (h : s.Describes log) (tag : String) :
    s.match? tag = none ↔ ¬ SharesLanguage (log.map (·.locale)) tag := by
  rw [match?_eq h]
  generalize log.map (·.locale) = loaded
  split
  · next htag => exact iff_of_false nofun fun hnone => hnone ⟨tag, htag, rfl⟩
  · split
    · next hlanguage =>
        refine iff_of_false nofun fun hnone => hnone ⟨_, hlanguage, languageOf_languageOf tag⟩
    · rw [List.find?_eq_none, SharesLanguage]
      simp

theorem match?_eq_some_iff (h : s.Describes log) (tag best : String) :
    s.match? tag = some best ↔ BestMatch (log.map (·.locale)) tag best := by
  rw [match?_eq h]
  generalize log.map (·.locale) = loaded
  constructor
  · intro hmatch
    split at hmatch
    · next htag =>
        cases hmatch
        exact .tag htag
    · next htag =>
        split at hmatch
        · next hlanguage =>
            cases hmatch
            exact .language htag hlanguage
        · next hlanguage =>
            obtain ⟨hbest, before, after, hloaded, hbefore⟩ :=
              List.find?_eq_some_iff_append.mp hmatch
            refine .first htag hlanguage hloaded (beq_iff_eq.mp hbest) fun l hl => ?_
            simpa using hbefore l hl
  · intro hbest
    cases hbest with
    | tag htag => rw [if_pos htag]
    | language htag hlanguage => rw [if_neg htag, if_pos hlanguage]
    | first htag hlanguage hloaded hbest hbefore =>
        rw [if_neg htag, if_neg hlanguage, List.find?_eq_some_iff_append]
        exact ⟨beq_iff_eq.mpr hbest, _, _, hloaded, fun l hl => by simpa using hbefore l hl⟩

theorem BestMatch.mem {loaded : List String} {tag best : String} (h : BestMatch loaded tag best) :
    best ∈ loaded := by
  cases h with
  | tag h => exact h
  | language _ h => exact h
  | first _ _ hloaded => simp [hloaded]

theorem closest?_eq_none_iff (h : s.Describes log) (candidates : List String) :
    s.closest? candidates = none ↔
      ∀ tag ∈ listed candidates, ¬ SharesLanguage (log.map (·.locale)) tag := by
  rw [closest?, tags_eq_listed, List.findSome?_eq_none_iff]
  exact forall₂_congr fun tag _ => match?_eq_none_iff h tag

theorem closest?_eq_some_iff (h : s.Describes log) (candidates : List String) (best : String) :
    s.closest? candidates = some best ↔
      ∃ before tag after, listed candidates = before ++ tag :: after ∧
        (∀ t ∈ before, ¬ SharesLanguage (log.map (·.locale)) t) ∧
        BestMatch (log.map (·.locale)) tag best := by
  rw [closest?, tags_eq_listed, List.findSome?_eq_some_iff]
  refine exists₃_congr fun before tag after => and_congr_right fun _ => ?_
  rw [match?_eq_some_iff h, and_comm]
  exact and_congr_left fun _ => forall₂_congr fun t _ => match?_eq_none_iff h t

theorem closest?_append {candidates : List String} {best : String}
    (h : s.closest? candidates = some best) (more : List String) :
    s.closest? (candidates ++ more) = some best := by
  rw [closest?] at h
  rw [closest?, tags_append, List.findSome?_append, h, Option.some_or]

end Snapshot

namespace Catalog

theorem closest_eq_true_iff (c : Catalog) (candidates : List String) (best : String) :
    c.closest candidates = (best, true) ↔ c.snapshot.closest? candidates = some best := by
  unfold closest
  cases c.snapshot.closest? candidates <;> simp

theorem closest_eq_false_iff (c : Catalog) (candidates : List String) :
    c.closest candidates = (c.settings.fallback, false) ↔
      c.snapshot.closest? candidates = none := by
  unfold closest
  cases c.snapshot.closest? candidates <;> simp

open Snapshot (listed SharesLanguage BestMatch)

/-- How a catalog answers candidates, by the locales that were loaded in order. -/
structure FindsClosest (c : Catalog) (loaded candidates : List String) : Prop where
  fallback_iff : c.closest candidates = (c.settings.fallback, false) ↔
    ∀ tag ∈ listed candidates, ¬ SharesLanguage loaded tag
  best_iff : ∀ best, c.closest candidates = (best, true) ↔
    ∃ before tag after, listed candidates = before ++ tag :: after ∧
      (∀ t ∈ before, ¬ SharesLanguage loaded t) ∧ BestMatch loaded tag best
  loaded : ∀ best, c.closest candidates = (best, true) → (c.snapshot.tables.find? best).isSome
  more_candidates : ∀ best, c.closest candidates = (best, true) →
    ∀ more, c.closest (candidates ++ more) = (best, true)

theorem findsClosest {c : Catalog} {log : List Loaded} (h : c.snapshot.Describes log)
    (candidates : List String) : c.FindsClosest (log.map (·.locale)) candidates where
  fallback_iff := by
    rw [closest_eq_false_iff, Snapshot.closest?_eq_none_iff h]
  best_iff best := by
    rw [closest_eq_true_iff, Snapshot.closest?_eq_some_iff h]
  loaded best hbest := by
    rw [closest_eq_true_iff, Snapshot.closest?_eq_some_iff h] at hbest
    obtain ⟨_, _, _, _, _, hbest⟩ := hbest
    exact (h.contains_iff best).mpr hbest.mem
  more_candidates best hbest more := by
    rw [closest_eq_true_iff] at *
    exact Snapshot.closest?_append hbest more

/-- Something matches exactly if some tag has the language of a loaded locale. -/
theorem matches_iff {c : Catalog} {log : List Loaded} (h : c.snapshot.Describes log)
    (candidates : List String) : (c.closest candidates).2 = true ↔
      ∃ tag ∈ listed candidates, SharesLanguage (log.map (·.locale)) tag := by
  have hnone := Snapshot.closest?_eq_none_iff h candidates
  rw [closest]
  cases hclosest : c.snapshot.closest? candidates with
  | none => simpa [hclosest] using hnone
  | some best => simpa [hclosest] using hnone

/-- The answer for candidates is the fallback if no loaded locale has the language of any tag in
them, and otherwise the locale that fits the first tag best whose language is that of one. It is
loaded, it stays the same with more candidates, and something goes on to match when more is
loaded. -/
theorem closest_is_best (settings : Settings) (calls : List (FileTree × Loading))
    (candidates : List String) :
    let c := calls.foldl after (new settings)
    c.settings = settings ∧
      c.FindsClosest ((Loading.log settings.strict calls).map (·.locale)) candidates ∧
      ((c.closest candidates).2 = true → ∀ more : List (FileTree × Loading),
        ((more.foldl after c).closest candidates).2 = true) := by
  obtain ⟨hsettings, hdescribes⟩ := describes_foldl (c := new settings) .empty calls
  refine ⟨hsettings, findsClosest hdescribes candidates, fun hmatch more => ?_⟩
  have hmore := (describes_foldl hdescribes more).2
  rw [matches_iff hdescribes] at hmatch
  rw [matches_iff hmore]
  obtain ⟨tag, htag, locale, hlocale, hlanguage⟩ := hmatch
  refine ⟨tag, htag, locale, ?_, hlanguage⟩
  exact List.map_subset _ (Loading.subset_foldl_record _ _ more) hlocale

/-- Loads of English and of two kinds of French. -/
def frenchCalls : List (FileTree × Loading) :=
  [(.empty, .text "fr-FR" "\x7b\x7d"), (.empty, .text "en" "\x7b\x7d"),
    (.empty, .text "fr-CA" "\x7b\x7d")]

/-- Of the two tags, the second one is the first whose language is there. -/
theorem closest_is_best_of_french :
    let c := frenchCalls.foldl after (new {})
    c.closest ["xx, fr-BE"] = ("fr-FR", true) ∧ c.closest ["xx"] = ("en-GB", false) ∧
      c.closest ["xx, fr-BE", "en"] = ("fr-FR", true) := by
  have hloaded : (Loading.log true frenchCalls).map (·.locale) = ["fr-FR", "en", "fr-CA"] := by
    decide +kernel
  obtain ⟨-, hfinds, -⟩ := closest_is_best {} frenchCalls ["xx, fr-BE"]
  obtain ⟨-, hnone, -⟩ := closest_is_best {} frenchCalls ["xx"]
  rw [hloaded] at hfinds hnone
  have hfrench : BestMatch ["fr-FR", "en", "fr-CA"] "fr-BE" "fr-FR" :=
    have hfirst : ["fr-FR", "en", "fr-CA"] = [] ++ "fr-FR" :: ["en", "fr-CA"] := rfl
    .first (by decide) (by decide +kernel) hfirst (by decide +kernel) (by simp)
  have hbest := (hfinds.best_iff "fr-FR").mpr
    ⟨["xx"], "fr-BE", [], by decide +kernel, by decide +kernel, hfrench⟩
  have hfallback := hnone.fallback_iff.mpr (by decide +kernel)
  exact ⟨hbest, hfallback, hfinds.more_candidates _ hbest ["en"]⟩

end Catalog

end Phrasebook
