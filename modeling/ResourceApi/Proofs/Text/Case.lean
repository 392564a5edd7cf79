import ResourceApi.Text.Words

/-!
# Upper case

Upper-case text holds no lower-case letter of the first 128 code points, whatever characters it is made
from.  Beyond these code points that is a property of the tables.
-/

namespace ResourceApi.Text

theorem toNat_ofNat (code : Nat) : (Char.ofNat code).toNat = code ∨ (Char.ofNat code).toNat = 0 := by
  unfold Char.ofNat
  by_cases h : code.isValidChar
  · rw [dif_pos h]
    exact .inl rfl
  · rw [dif_neg h]
    exact .inr rfl

theorem isLower_iff (c : Char) : c.isLower = true ↔ 97 ≤ c.toNat ∧ c.toNat ≤ 122 := by
  unfold Char.isLower
  rw [Bool.and_eq_true, decide_eq_true_iff, decide_eq_true_iff, ge_iff_le, UInt32.le_iff_toNat_le,
    UInt32.le_iff_toNat_le]
  exact Iff.rfl

theorem isLower_ofNat {code : Nat} (h : code < 97 ∨ 122 < code) : (Char.ofNat code).isLower = false := by
  rw [Bool.eq_false_iff, Ne, isLower_iff]
  have := toNat_ofNat code
  omega

theorem toNat_toUpper (c : Char) :
    c.toUpper.toNat = if 97 ≤ c.toNat ∧ c.toNat ≤ 122 then c.toNat - 32 else c.toNat := by
  have hbounds : ('a'.val ≤ c.val ∧ c.val ≤ 'z'.val) ↔ (97 ≤ c.toNat ∧ c.toNat ≤ 122) := by
    rw [UInt32.le_iff_toNat_le, UInt32.le_iff_toNat_le]
    exact Iff.rfl
  unfold Char.toUpper
  split
  · rename_i h
    have hlower := hbounds.mp h
    rw [if_pos hlower]
    have hcode : (c.val + ('A'.val - 'a'.val)).toNat = (c.toNat + 4294967264) % 4294967296 :=
      UInt32.toNat_add ..
    change (c.val + ('A'.val - 'a'.val)).toNat = _
    rw [hcode]
    omega
  · rename_i h
    rw [if_neg (fun hlower ↦ h (hbounds.mpr hlower))]

theorem toNat_toLower (c : Char) :
    c.toLower.toNat = if 65 ≤ c.toNat ∧ c.toNat ≤ 90 then c.toNat + 32 else c.toNat := by
  have hbounds : ('A'.val ≤ c.val ∧ c.val ≤ 'Z'.val) ↔ (65 ≤ c.toNat ∧ c.toNat ≤ 90) := by
    rw [UInt32.le_iff_toNat_le, UInt32.le_iff_toNat_le]
    exact Iff.rfl
  unfold Char.toLower
  split
  · rename_i h
    have hupper := hbounds.mp h
    rw [if_pos hupper]
    have hcode : (c.val + ('a'.val - 'A'.val)).toNat = (c.toNat + 32) % 4294967296 :=
      UInt32.toNat_add ..
    change (c.val + ('a'.val - 'A'.val)).toNat = _
    rw [hcode]
    omega
  · rename_i h
    rw [if_neg (fun hupper ↦ h (hbounds.mpr hupper))]

theorem isLower_toUpper (c : Char) : c.toUpper.isLower = false := by
  rw [Bool.eq_false_iff, Ne, isLower_iff, toNat_toUpper]
  split <;> omega

theorem expandingUpper_codes : ∀ entry ∈ Table.expandingUpper, ∀ code ∈ entry.2,
    code < 97 ∨ 122 < code := by
  decide

theorem upper_runs : ∀ run ∈ Table.upper,
    (run.2.1 : Int) + run.2.2.2 < 97 ∨ (122 : Int) < run.1 + run.2.2.2 := by
  decide +kernel

theorem shifted_upper {code : Nat} (h : 128 ≤ code) :
    shifted Table.upper code < 97 ∨ 122 < shifted Table.upper code := by
  unfold shifted
  split
  · rename_i first last step shift hfind
    have hrun := upper_runs _ (List.mem_of_find?_eq_some hfind)
    have hcode := List.find?_some hfind
    simp at hrun hcode
    omega
  · omega

/-- Upper case holds no lower-case letter. -/
theorem isLower_upperChars {c d : Char} (h : d ∈ upperChars c) : d.isLower = false := by
  unfold upperChars at h
  split at h
  · obtain rfl := List.mem_singleton.mp h
    exact isLower_toUpper c
  · rename_i hascii
    have hcode : 128 ≤ c.toNat := by simpa [isAscii] using hascii
    split at h
    · rename_i entry codes hfind
      obtain ⟨code, hmem, rfl⟩ := List.mem_map.mp h
      exact isLower_ofNat (expandingUpper_codes _ (List.mem_of_find?_eq_some hfind) code hmem)
    · obtain rfl := List.mem_singleton.mp h
      exact isLower_ofNat (shifted_upper hcode)

theorem mem_intercalate {α : Type} {x : α} {separator : List α} {parts : List (List α)}
    (h : x ∈ separator.intercalate parts) : x ∈ separator ∨ ∃ part ∈ parts, x ∈ part := by
  induction parts with
  | nil => simp at h
  | cons first rest ih =>
    cases rest with
    | nil => exact .inr ⟨first, List.mem_singleton_self first, by simpa using h⟩
    | cons second more =>
      rw [List.intercalate_cons_cons, List.mem_append, List.mem_append] at h
      rcases h with (hfirst | hseparator) | hrest
      · exact .inr ⟨first, List.mem_cons_self, hfirst⟩
      · exact .inl hseparator
      · rcases ih hrest with hseparator | ⟨part, hpart, hx⟩
        · exact .inl hseparator
        · exact .inr ⟨part, List.mem_cons_of_mem _ hpart, hx⟩

theorem isLower_upperSnakeCase {text : String} {c : Char} (h : c ∈ (upperSnakeCase text).toList) :
    c.isLower = false := by
  unfold upperSnakeCase at h
  rw [String.toList_ofList] at h
  rcases mem_intercalate h with hunderscore | ⟨part, hpart, hc⟩
  · obtain rfl := List.mem_singleton.mp hunderscore
    decide
  · obtain ⟨word, -, rfl⟩ := List.mem_map.mp hpart
    obtain ⟨d, -, hd⟩ := List.mem_flatMap.mp hc
    exact isLower_upperChars hd

end ResourceApi.Text
