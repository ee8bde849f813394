import Mathlib
import Phrasebook.Text.Quoted

/-!
# Quoted texts are told apart

Between quotes a character is written as itself, behind a backslash as a character that stands for
it, or by its hexadecimal number in braces. None of these codes is the beginning of another one, and
none starts with a quote. So a quoted text can be read back up to its closing quote, whatever stands
behind it (`quoteChars_append_inj`).
-/

namespace Phrasebook.Text

/-- The characters of a class are told apart from what starts with a character outside of it. -/
theorem span_append_inj {p : Char → Bool} {as bs xs ys : List Char} (has : ∀ c ∈ as, p c)
    (hbs : ∀ c ∈ bs, p c) (hxs : ∀ c ∈ xs.head?, p c = false) (hys : ∀ c ∈ ys.head?, p c = false)
    (h : as ++ xs = bs ++ ys) : as = bs ∧ xs = ys := by
  have htake : ∀ {front behind : List Char}, (∀ c ∈ front, p c) →
      (∀ c ∈ behind.head?, p c = false) → (front ++ behind).takeWhile p = front := by
    intro front behind hfront hbehind
    rw [List.takeWhile_append_of_pos hfront]
    cases behind with
    | nil => simp
    | cons c rest => simp [hbehind c rfl]
  have hspan : as = bs := by rw [← htake has hxs, h, htake hbs hys]
  subst hspan
  exact ⟨rfl, List.append_cancel_left h⟩

theorem digitChar_inj {a b : Nat} (ha : a < 16) (hb : b < 16) (h : a.digitChar = b.digitChar) :
    a = b := by
  have hall : ∀ x : Fin 16, ∀ y : Fin 16, x.val.digitChar = y.val.digitChar → x = y := by decide
  exact congrArg Fin.val (hall ⟨a, ha⟩ ⟨b, hb⟩ h)

theorem hexDigits_eq (n : Nat) :
    hexDigits n = (if n < 16 then [] else hexDigits (n / 16)) ++ [(n % 16).digitChar] := by
  rw [hexDigits, Nat.toDigits_eq_if (by decide)]
  split
  · next h => rw [Nat.mod_eq_of_lt h, List.nil_append]
  · rfl

theorem hexDigits_inj {n m : Nat} (h : hexDigits n = hexDigits m) : n = m := by
  induction n using Nat.strongRecOn generalizing m with
  | ind n ih =>
      rw [hexDigits_eq n, hexDigits_eq m] at h
      obtain ⟨hfront, hlast⟩ := List.append_inj' h rfl
      have hmod : n % 16 = m % 16 :=
        digitChar_inj (n.mod_lt (by decide)) (m.mod_lt (by decide)) (List.singleton_inj.mp hlast)
      have hquot : n / 16 = m / 16 := by
        split_ifs at hfront with hn hm hm
        · omega
        · exact absurd hfront.symm Nat.toDigits_ne_nil
        · exact absurd hfront Nat.toDigits_ne_nil
        · exact ih (n / 16) (by omega) hfront
      omega

theorem digitChar_ne_brace {n : Nat} (h : n < 16) : n.digitChar ≠ '}' := by
  have hall : ∀ x : Fin 16, x.val.digitChar ≠ '}' := by decide
  exact hall ⟨n, h⟩

theorem ne_brace_of_mem_hexDigits (n : Nat) : ∀ c ∈ hexDigits n, (c != '}') = true := by
  induction n using Nat.strongRecOn with
  | ind n ih =>
      have hlast : ((n % 16).digitChar != '}') = true :=
        bne_iff_ne.mpr (digitChar_ne_brace (n.mod_lt (by decide)))
      rw [hexDigits_eq]
      refine List.forall_mem_append.mpr ⟨?_, List.forall_mem_singleton.mpr hlast⟩
      split
      · exact List.forall_mem_nil _
      · exact ih (n / 16) (by omega)

/-- The characters that are written by another one behind a backslash. -/
def shortEscapes : List (Char × Char) :=
  [('\x00', '0'), ('\t', 't'), ('\r', 'r'), ('\n', 'n'), ('"', '"'), ('\\', '\\')]

/-- A code that a character may have between quotes. -/
inductive Coded : Char → List Char → Prop where
  | plain {c : Char} : c ≠ '"' → c ≠ '\\' → Coded c [c]
  | short {c d : Char} : (c, d) ∈ shortEscapes → Coded c ['\\', d]
  | number (c : Char) : Coded c ('\\' :: 'u' :: '{' :: (hexDigits c.toNat ++ ['}']))

theorem coded_quoteChar (c : Char) : Coded c (quoteChar c) := by
  unfold quoteChar
  split
  case h_7 hquote hslash =>
    split
    · exact .number c
    · exact .plain hquote hslash
  all_goals exact .short (by decide)

namespace Coded

variable {c d : Char} {as bs xs ys : List Char}

theorem exists_cons (h : Coded c as) : ∃ a rest, as = a :: rest ∧ a ≠ '"' := by
  cases h with
  | plain hquote => exact ⟨c, [], rfl, hquote⟩
  | short => exact ⟨'\\', _, rfl, by decide⟩
  | number => exact ⟨'\\', _, rfl, by decide⟩

/-- No code is the beginning of the code of another character. -/
theorem append_inj (hc : Coded c as) (hd : Coded d bs) (h : as ++ xs = bs ++ ys) :
    c = d ∧ xs = ys := by
  have hshort : ∀ p ∈ shortEscapes, ∀ q ∈ shortEscapes, p.2 = q.2 → p.1 = q.1 := by decide
  have hnumber : ∀ p ∈ shortEscapes, p.2 ≠ 'u' := by decide
  cases hc with
  | plain _ hslash =>
      cases hd with
      | plain => exact List.cons_eq_cons.mp h
      | short => exact absurd (List.cons_eq_cons.mp h).1 hslash
      | number => exact absurd (List.cons_eq_cons.mp h).1 hslash
  | short hp =>
      cases hd with
      | plain _ hslash => exact absurd (List.cons_eq_cons.mp h).1.symm hslash
      | short hq =>
          obtain ⟨hsecond, hrest⟩ := List.cons_eq_cons.mp (List.cons_eq_cons.mp h).2
          exact ⟨hshort _ hp _ hq hsecond, hrest⟩
      | number => exact absurd (List.cons_eq_cons.mp (List.cons_eq_cons.mp h).2).1 (hnumber _ hp)
  | number =>
      cases hd with
      | plain _ hslash => exact absurd (List.cons_eq_cons.mp h).1.symm hslash
      | short hq =>
          exact absurd (List.cons_eq_cons.mp (List.cons_eq_cons.mp h).2).1.symm (hnumber _ hq)
      | number =>
          have hdigits : hexDigits c.toNat ++ '}' :: xs = hexDigits d.toNat ++ '}' :: ys := by
            simpa using h
          obtain ⟨hnumbers, hrest⟩ := span_append_inj (ne_brace_of_mem_hexDigits _)
            (ne_brace_of_mem_hexDigits _) (by simp) (by simp) hdigits
          exact ⟨Char.toNat_inj.mp (hexDigits_inj hnumbers), (List.cons_eq_cons.mp hrest).2⟩

end Coded

/-- A quoted text is determined by any characters that start with it, and so is what stands behind
it. -/
theorem quoteChars_append_inj {cs ds xs ys : List Char}
    (h : quoteChars cs ++ xs = quoteChars ds ++ ys) : cs = ds ∧ xs = ys := by
  have hbody : cs.flatMap quoteChar ++ '"' :: xs = ds.flatMap quoteChar ++ '"' :: ys := by
    simpa [quoteChars] using h
  clear h
  induction cs generalizing ds with
  | nil =>
      cases ds with
      | nil => exact ⟨rfl, (List.cons_eq_cons.mp hbody).2⟩
      | cons d ds =>
          obtain ⟨b, rest, hcode, hquote⟩ := (coded_quoteChar d).exists_cons
          rw [List.flatMap_cons, hcode] at hbody
          exact absurd (List.cons_eq_cons.mp hbody).1.symm hquote
  | cons c cs ih =>
      cases ds with
      | nil =>
          obtain ⟨a, rest, hcode, hquote⟩ := (coded_quoteChar c).exists_cons
          rw [List.flatMap_cons, hcode] at hbody
          exact absurd (List.cons_eq_cons.mp hbody).1 hquote
      | cons d ds =>
          rw [List.flatMap_cons, List.flatMap_cons, List.append_assoc, List.append_assoc] at hbody
          obtain ⟨rfl, hothers⟩ := (coded_quoteChar c).append_inj (coded_quoteChar d) hbody
          obtain ⟨rfl, hrest⟩ := ih hothers
          exact ⟨rfl, hrest⟩

end Phrasebook.Text
