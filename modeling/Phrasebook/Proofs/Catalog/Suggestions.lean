import Mathlib
import Phrasebook.Catalog.Suggestion
import Phrasebook.Proofs.Text.Edits
import Phrasebook.Proofs.Value.Size

/-!
# The keys that are suggested

Keys are ranked by their distance to the target and then by their own order. Of the available keys
that are near enough, the first three of this ranking are suggested, in whatever order the available
keys are given (`Suggestion.suggests_nearest`).

How near is near enough depends on the bytes of the target: three of them need not be as many
characters.
-/

namespace Phrasebook.Suggestion

/-- The edit distance of a key to the target. -/
def distanceTo (target key : String) : Nat := Text.editDistance target.toList key.toList

/-- A key comes before another one in the ranking: it is nearer to the target, or as near and
smaller. -/
def Before (target a b : String) : Prop :=
  distanceTo target a < distanceTo target b ∨ distanceTo target a = distanceTo target b ∧ a < b

/-- A key is near enough to the target, but not the target. -/
def NearEnough (target key : String) : Prop :=
  1 ≤ distanceTo target key ∧ distanceTo target key ≤ maxDistance target

instance (target key : String) : Decidable (NearEnough target key) :=
  inferInstanceAs (Decidable (_ ∧ _))

variable {target a b c : String}

theorem Before.asymm (h : Before target a b) : ¬ Before target b a := by
  rintro (hlt | ⟨hsame, hlt⟩) <;> rcases h with h | ⟨h, hless⟩
  · omega
  · omega
  · omega
  · exact String.lt_asymm hless hlt

theorem precedes_iff {s t : Suggestion} :
    precedes s t ↔ s.distance < t.distance ∨ s.distance = t.distance ∧ s.key ≤ t.key := by
  simp only [precedes, Bool.or_eq_true, Bool.and_eq_true, decide_eq_true_eq, beq_iff_eq,
    Bool.not_eq_true', decide_eq_false_iff_not, String.not_lt]

theorem precedes_trans (r s t : Suggestion) (h : precedes r s) (h' : precedes s t) :
    precedes r t := by
  rw [precedes_iff] at h h' ⊢
  rcases h with h | ⟨h, hkey⟩ <;> rcases h' with h' | ⟨h', hkey'⟩
  · exact .inl (by omega)
  · exact .inl (by omega)
  · exact .inl (by omega)
  · exact .inr ⟨h.trans h', String.le_trans hkey hkey'⟩

theorem precedes_total (s t : Suggestion) : precedes s t || precedes t s := by
  rw [Bool.or_eq_true, precedes_iff, precedes_iff]
  rcases Nat.lt_trichotomy s.distance t.distance with h | h | h
  · exact .inl (.inl h)
  · exact (String.le_total s.key t.key).imp (.inr ⟨h, ·⟩) (.inr ⟨h.symm, ·⟩)
  · exact .inr (.inl h)

/-- All keys that are near enough, in the order in which they are suggested. -/
def ranking (target : String) (available : List String) : List String :=
  ((eligible target available).mergeSort precedes).map (·.key)

theorem suggest_eq_take (target : String) (available : List String) :
    suggest target available = (ranking target available).take 3 := List.map_take

theorem distance_of_mem_eligible {available : List String} {s : Suggestion}
    (h : s ∈ eligible target available) : s.distance = distanceTo target s.key := by
  obtain ⟨key, -, rfl⟩ := List.mem_map.mp (List.mem_filter.mp h).1
  rfl

theorem map_key_eligible (target : String) (available : List String) :
    (eligible target available).map (·.key) = available.filter (NearEnough target ·) := by
  rw [eligible, List.filter_map, List.map_map]
  have hkey : (fun s : Suggestion => s.key) ∘ (fun key : String =>
      (⟨Text.editDistance target.toList key.toList, key⟩ : Suggestion)) = id := rfl
  rw [hkey, List.map_id]
  apply List.filter_congr
  intro key _
  simp [NearEnough, distanceTo, Nat.succ_le_iff]

theorem ranking_perm (target : String) (available : List String) :
    (ranking target available).Perm (available.filter (NearEnough target ·)) := by
  rw [← map_key_eligible]
  exact (List.mergeSort_perm _ _).map _

/-- Different keys are ranked strictly. -/
theorem pairwise_ranking {available : List String} (hdistinct : available.Nodup) :
    (ranking target available).Pairwise (Before target) := by
  have hnodup : (ranking target available).Nodup :=
    (ranking_perm target available).nodup_iff.mpr (hdistinct.filter _)
  have hsorted : ((eligible target available).mergeSort precedes).Pairwise (precedes · ·) :=
    List.pairwise_mergeSort precedes_trans precedes_total _
  rw [ranking, List.pairwise_map]
  have hkeys := List.pairwise_map.mp hnodup
  refine (hsorted.and hkeys).imp_of_mem ?_
  rintro s t hs ht ⟨hprecedes, hne⟩
  rw [List.mem_mergeSort] at hs ht
  rw [Before, ← distance_of_mem_eligible hs, ← distance_of_mem_eligible ht]
  rw [precedes_iff] at hprecedes
  refine hprecedes.imp id (And.imp_right fun hle => ?_)
  exact Std.lt_of_le_of_ne hle hne

/-- The ranking does not depend on the order in which the keys are given. -/
theorem ranking_of_perm {available others : List String} (hdistinct : available.Nodup)
    (h : others.Perm available) : ranking target others = ranking target available := by
  have hperm : (ranking target others).Perm (ranking target available) :=
    (ranking_perm _ _).trans ((h.filter _).trans (ranking_perm _ _).symm)
  refine hperm.eq_of_pairwise ?_ (pairwise_ranking (h.nodup_iff.mpr hdistinct))
    (pairwise_ranking hdistinct)
  intro a b _ _ hab hba
  exact absurd hba hab.asymm

theorem before_of_not_mem_suggest {available : List String} (hdistinct : available.Nodup)
    (ha : a ∈ suggest target available) (hb : b ∈ available) (hnear : NearEnough target b)
    (hout : b ∉ suggest target available) : Before target a b := by
  rw [suggest_eq_take] at ha hout
  have hranked : b ∈ ranking target available :=
    (ranking_perm target available).mem_iff.mpr (List.mem_filter.mpr ⟨hb, by simpa using hnear⟩)
  have hsplit := List.take_append_drop 3 (ranking target available)
  have hsorted : (ranking target available).Pairwise (Before target) := pairwise_ranking hdistinct
  rw [← hsplit, List.pairwise_append] at hsorted
  rw [← hsplit, List.mem_append] at hranked
  exact hsorted.2.2 a ha b (hranked.resolve_left hout)

theorem maxDistance_eq_iff (target : String) :
    maxDistance target = (if target.length ≤ 3 then 1 else 2) ↔
      ¬ (target.length ≤ 3 ∧ 3 < target.utf8ByteSize) := by
  have hsize := Text.length_le_utf8Len target.toList
  rw [String.utf8Len_toList, String.length_toList] at hsize
  rw [maxDistance]
  split <;> split <;> omega

/-- Of distinct keys, those that are suggested are the nearest to the target: the distances are
least numbers of edits, and the suggestions are the first three of the keys that are near enough,
ranked by distance and then by key. So they do not depend on the order of the keys, and no key that
is near enough and left out comes before one that is suggested. The greatest distance is that for
the number of characters of the target, unless these are at most three in more than three bytes. -/
theorem suggests_nearest {available : List String} (hdistinct : available.Nodup) (target : String) :
    (∀ key, IsLeast {n | Text.Edits n target.toList key.toList} (distanceTo target key)) ∧
      (∃ ranked : List String, ranked.Perm (available.filter (NearEnough target ·)) ∧
        ranked.Pairwise (Before target) ∧ suggest target available = ranked.take 3) ∧
      (∀ others : List String, others.Perm available →
        suggest target others = suggest target available) ∧
      (∀ key ∈ suggest target available, ∀ other ∈ available, NearEnough target other →
        other ∉ suggest target available → Before target key other) ∧
      (maxDistance target = (if target.length ≤ 3 then 1 else 2) ↔
        ¬ (target.length ≤ 3 ∧ 3 < target.utf8ByteSize)) := by
  refine ⟨fun key => Text.isLeast_editDistance _ _, ?_, fun others h => ?_, ?_,
    maxDistance_eq_iff target⟩
  · exact ⟨ranking target available, ranking_perm _ _, pairwise_ranking hdistinct,
      suggest_eq_take _ _⟩
  · rw [suggest_eq_take, suggest_eq_take, ranking_of_perm hdistinct h]
  · intro key hkey other hother hnear hout
    exact before_of_not_mem_suggest hdistinct hkey hother hnear hout

/-- Two characters of two bytes each: a key at distance two is near enough, but three keys are
nearer. -/
theorem suggests_nearest_of_accents :
    let available := ["ab", "éa", "é", "éb"]
    available.Nodup ∧ suggest "éé" available = ["é", "éa", "éb"] ∧ NearEnough "éé" "ab" ∧
      Before "éé" "éb" "ab" ∧ suggest "éé" available.reverse = suggest "éé" available ∧
      maxDistance "éé" ≠ 1 := by
  intro available
  have hdistinct : available.Nodup := by decide
  obtain ⟨-, -, horder, hnearest, hbytes⟩ := suggests_nearest hdistinct "éé"
  have hsuggest : suggest "éé" available = ["é", "éa", "éb"] := by cbv
  have hnear : NearEnough "éé" "ab" := by decide +kernel
  refine ⟨hdistinct, hsuggest, hnear, ?_, horder _ available.reverse_perm, ?_⟩
  · exact hnearest "éb" (by simp [hsuggest]) "ab" (by simp [available]) hnear (by simp [hsuggest])
  · intro hone
    exact hbytes.mp hone (by decide +kernel)

end Phrasebook.Suggestion
