import PluginManager.Proofs.Text.Utf8

/-!
# Texts and their bytes come in one order

The order of two texts is decided by the first characters in which they differ, and the order of
their bytes by the first bytes.  It is the same order.

* `encodeChar_append_lt`: a smaller character has smaller bytes, whatever follows.
* `encode_lt`: **a smaller text has smaller bytes**.
* `map_encode_lt`: so lists of texts and lists of their bytes come in one order too.
-/

namespace PluginManager.Text

variable {c d : Char} {s t : String} {as bs : Bytes}

/-! ## Characters -/

theorem cons_lt_cons_iff_toNat {a b : UInt8} :
    a :: as < b :: bs ↔ a.toNat < b.toNat ∨ a.toNat = b.toNat ∧ as < bs := by
  rw [List.cons_lt_cons_iff, UInt8.lt_iff_toNat_lt, UInt8.toNat_inj]

/-- What follows does not matter where as many bytes differ. -/
theorem append_lt_append (h : as < bs) (hlength : as.length = bs.length) (x y : Bytes) :
    as ++ x < bs ++ y := by
  induction as generalizing bs with
  | nil =>
    obtain rfl := List.length_eq_zero_iff.mp hlength.symm
    exact absurd h (List.not_lt_nil [])
  | cons a as ih =>
    obtain ⟨b, bs, rfl⟩ := List.exists_cons_of_length_eq_add_one hlength.symm
    rw [List.cons_append, List.cons_append, List.cons_lt_cons_iff]
    rcases List.cons_lt_cons_iff.mp h with hlt | ⟨heq, hrest⟩
    · exact .inl hlt
    · exact .inr ⟨heq, ih hrest (by simpa using hlength)⟩

theorem append_lt_append_of_head {a b : UInt8} (h : a.toNat < b.toNat) (x y : Bytes) :
    a :: as ++ x < b :: bs ++ y := by
  rw [List.cons_append, List.cons_append, cons_lt_cons_iff_toNat]
  exact .inl h

/-- A smaller character has smaller bytes, whatever follows. -/
theorem encodeChar_append_lt (h : c < d) (x y : Bytes) : encodeChar c ++ x < encodeChar d ++ y := by
  have hlt : c.toNat < d.toNat := h
  have hvalid : d.toNat < 0xd800 ∨ 0xdfff < d.toNat ∧ d.toNat < 0x110000 := d.valid
  generalize hm : c.toNat = m at hlt
  generalize hn : d.toNat = n at hlt hvalid
  have hbyte : ∀ {k : Nat}, k < 256 → (UInt8.ofNat k).toNat = k := toNat_ofNat_of_lt
  rw [encodeChar, encodeChar, hm, hn]
  simp only [Nat.pow_eq, Nat.pow_zero, Nat.div_one, Nat.pow_one]
  -- Where the characters take as many bytes, the first in which they differ decides; otherwise the
  -- first byte of all does.
  by_cases h₁ : m < 0x80
  · rw [if_pos h₁]
    split
    · apply append_lt_append
      · rw [cons_lt_cons_iff_toNat, hbyte (by omega), hbyte (by omega)]
        omega
      · rfl
    · split
      · exact append_lt_append_of_head (by rw [hbyte (by omega), hbyte (by omega)]; omega) x y
      · split
        · exact append_lt_append_of_head (by rw [hbyte (by omega), hbyte (by omega)]; omega) x y
        · exact append_lt_append_of_head (by rw [hbyte (by omega), hbyte (by omega)]; omega) x y
  · rw [if_neg h₁, if_neg (by omega : ¬ n < 0x80)]
    by_cases h₂ : m < 0x800
    · rw [if_pos h₂]
      split
      · apply append_lt_append
        · rw [cons_lt_cons_iff_toNat, cons_lt_cons_iff_toNat, hbyte (by omega), hbyte (by omega),
            hbyte (by omega), hbyte (by omega)]
          omega
        · rfl
      · split
        · exact append_lt_append_of_head (by rw [hbyte (by omega), hbyte (by omega)]; omega) x y
        · exact append_lt_append_of_head (by rw [hbyte (by omega), hbyte (by omega)]; omega) x y
    · rw [if_neg h₂, if_neg (by omega : ¬ n < 0x800)]
      by_cases h₃ : m < 0x10000
      · rw [if_pos h₃]
        split
        · apply append_lt_append
          · rw [cons_lt_cons_iff_toNat, cons_lt_cons_iff_toNat, cons_lt_cons_iff_toNat,
              hbyte (by omega), hbyte (by omega), hbyte (by omega), hbyte (by omega),
              hbyte (by omega), hbyte (by omega)]
            omega
          · rfl
        · exact append_lt_append_of_head (by rw [hbyte (by omega), hbyte (by omega)]; omega) x y
      · rw [if_neg h₃, if_neg (by omega : ¬ n < 0x10000)]
        apply append_lt_append
        · rw [cons_lt_cons_iff_toNat, cons_lt_cons_iff_toNat, cons_lt_cons_iff_toNat,
            cons_lt_cons_iff_toNat, hbyte (by omega), hbyte (by omega), hbyte (by omega),
            hbyte (by omega), hbyte (by omega), hbyte (by omega), hbyte (by omega),
            hbyte (by omega)]
          omega
        · rfl

theorem encodeChar_ne_nil (c : Char) : encodeChar c ≠ [] := by
  rw [encodeChar]
  split
  · simp
  · split
    · simp
    · split <;> simp

/-! ## Texts -/

/-- **A smaller text has smaller bytes.** -/
theorem encode_lt (h : s < t) : encode s < encode t := by
  have hchars : ∀ cs ds : List Char, cs < ds → cs.flatMap encodeChar < ds.flatMap encodeChar := by
    intro cs
    induction cs with
    | nil =>
      intro ds hlt
      cases ds with
      | nil => exact absurd hlt (List.not_lt_nil [])
      | cons d ds =>
        rw [List.flatMap_nil, List.flatMap_cons]
        obtain ⟨b, bs, hd⟩ := List.exists_cons_of_ne_nil (encodeChar_ne_nil d)
        rw [hd]
        exact List.nil_lt_cons b _
    | cons c cs ih =>
      intro ds hlt
      cases ds with
      | nil => exact absurd hlt (List.not_lt_nil _)
      | cons d ds =>
        rw [List.flatMap_cons, List.flatMap_cons]
        rcases List.cons_lt_cons_iff.mp hlt with hcd | ⟨rfl, hrest⟩
        · exact encodeChar_append_lt hcd _ _
        · exact List.append_left_lt (ih ds hrest)
  exact hchars s.toList t.toList (String.lt_iff.mp h)

/-- Lists of texts and lists of their bytes come in one order too. -/
theorem map_encode_lt {ss ts : List String} (h : ss < ts) : ss.map encode < ts.map encode := by
  induction ss generalizing ts with
  | nil =>
    cases ts with
    | nil => exact absurd h (List.not_lt_nil [])
    | cons t ts => exact List.nil_lt_cons _ _
  | cons s ss ih =>
    cases ts with
    | nil => exact absurd h (List.not_lt_nil _)
    | cons t ts =>
      rw [List.map_cons, List.map_cons, List.cons_lt_cons_iff]
      rcases List.cons_lt_cons_iff.mp h with hst | ⟨rfl, hrest⟩
      · exact .inl (encode_lt hst)
      · exact .inr ⟨rfl, ih hrest⟩

end PluginManager.Text
