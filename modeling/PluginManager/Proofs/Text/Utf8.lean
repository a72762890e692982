import PluginManager.Text.Utf8

/-!
# Writing bytes and reading them again

* `pieces_encode`: an encoded text has no malformed piece.
* `decodeLossy_encode`: reading what was written gives the text back.
-/

namespace PluginManager.Text

/-! ## First bytes -/

theorem toNat_ofNat_of_lt {k : Nat} (h : k < 256) : (UInt8.ofNat k).toNat = k := by
  rw [UInt8.toNat_ofNat']
  exact Nat.mod_eq_of_lt h

theorem opening?_eq (a : UInt8) : opening? a =
    if 0xc2 ≤ a.toNat ∧ a.toNat ≤ 0xdf then some ⟨1, 0x80, 0xbf, a.toNat - 0xc0⟩
    else if a.toNat = 0xe0 then some ⟨2, 0xa0, 0xbf, 0⟩
    else if a.toNat = 0xed then some ⟨2, 0x80, 0x9f, 0xd⟩
    else if 0xe1 ≤ a.toNat ∧ a.toNat ≤ 0xef then some ⟨2, 0x80, 0xbf, a.toNat - 0xe0⟩
    else if a.toNat = 0xf0 then some ⟨3, 0x90, 0xbf, 0⟩
    else if 0xf1 ≤ a.toNat ∧ a.toNat ≤ 0xf3 then some ⟨3, 0x80, 0xbf, a.toNat - 0xf0⟩
    else if a.toNat = 0xf4 then some ⟨3, 0x80, 0x8f, 4⟩
    else none := by
  simp [opening?, UInt8.le_iff_toNat_le, ← UInt8.toNat_inj]

theorem piecesAfter_ascii {b : UInt8} (h : b.toNat < 0x80) (rest : Bytes) :
    piecesAfter none (b :: rest) = some (Char.ofNat b.toNat) :: piecesAfter none rest := by
  rw [piecesAfter, if_pos (UInt8.lt_iff_toNat_lt.mpr h)]

theorem piecesAfter_open {b : UInt8} {o : Opening} (h : 0x80 ≤ b.toNat) (ho : opening? b = some o)
    (rest : Bytes) : piecesAfter none (b :: rest) = piecesAfter (some o) rest := by
  have hb : ¬ b < 0x80 := by
    rw [UInt8.lt_iff_toNat_lt]
    exact Nat.not_lt.mpr h
  rw [piecesAfter, if_neg hb, ho]

/-! ## Bytes that follow -/

theorem accepts_iff (o : Opening) (b : UInt8) :
    o.accepts b = true ↔ o.low.toNat ≤ b.toNat ∧ b.toNat ≤ o.high.toNat := by
  simp [Opening.accepts, UInt8.le_iff_toNat_le]

theorem piecesAfter_last {o : Opening} {b : UInt8} (h : o.accepts b = true) (hm : o.more = 1)
    (rest : Bytes) :
    piecesAfter (some o) (b :: rest) = some (Char.ofNat (o.extend b)) :: piecesAfter none rest := by
  rw [piecesAfter]
  simp [h, hm]

theorem piecesAfter_next {o : Opening} {b : UInt8} (h : o.accepts b = true) (hm : o.more ≠ 1)
    (rest : Bytes) : piecesAfter (some o) (b :: rest) = piecesAfter (some (o.next b)) rest := by
  rw [piecesAfter]
  simp [h, hm]

/-! ## Characters -/

theorem piecesAfter_two {n : Nat} {a b : UInt8} (hlow : 0x80 ≤ n) (hhigh : n < 0x800)
    (ha : a.toNat = 0xc0 + n / 64) (hb : b.toNat = 0x80 + n % 64) (rest : Bytes) :
    piecesAfter none (a :: b :: rest) = some (Char.ofNat n) :: piecesAfter none rest := by
  have ho : opening? a = some ⟨1, 0x80, 0xbf, n / 64⟩ := by
    rw [opening?_eq, ha, if_pos (by omega), Nat.add_sub_cancel_left]
  have hb' : Opening.accepts ⟨1, 0x80, 0xbf, n / 64⟩ b = true := by
    rw [accepts_iff, hb]
    simp only [UInt8.reduceToNat]
    omega
  have hn : Opening.extend ⟨1, 0x80, 0xbf, n / 64⟩ b = n := by
    have h : Opening.extend ⟨1, 0x80, 0xbf, n / 64⟩ b = n / 64 * 64 + (b.toNat - 0x80) := rfl
    omega
  rw [piecesAfter_open (by omega) ho, piecesAfter_last hb' rfl, hn]

theorem piecesAfter_three {n : Nat} {a b c : UInt8} (hlow : 0x800 ≤ n) (hhigh : n < 0x10000)
    (hvalid : n < 0xd800 ∨ 0xdfff < n) (ha : a.toNat = 0xe0 + n / 4096)
    (hb : b.toNat = 0x80 + n / 64 % 64) (hc : c.toNat = 0x80 + n % 64) (rest : Bytes) :
    piecesAfter none (a :: b :: c :: rest) = some (Char.ofNat n) :: piecesAfter none rest := by
  -- The first byte narrows the range of the second where a shorter form or a surrogate would begin.
  obtain ⟨low, high, ho, hrange⟩ : ∃ low high : UInt8,
      opening? a = some ⟨2, low, high, n / 4096⟩ ∧ low.toNat ≤ b.toNat ∧ b.toNat ≤ high.toNat := by
    rw [opening?_eq, ha, hb, if_neg (by omega)]
    by_cases h0 : n / 4096 = 0
    · exact ⟨0xa0, 0xbf, by rw [if_pos (by omega), h0], by simp only [UInt8.reduceToNat]; omega⟩
    · rw [if_neg (by omega)]
      by_cases hd : n / 4096 = 0xd
      · exact ⟨0x80, 0x9f, by rw [if_pos (by omega), hd], by simp only [UInt8.reduceToNat]; omega⟩
      · refine ⟨0x80, 0xbf, ?_, by simp only [UInt8.reduceToNat]; omega⟩
        rw [if_neg (by omega), if_pos (by omega), Nat.add_sub_cancel_left]
  have hb' : Opening.accepts ⟨2, low, high, n / 4096⟩ b = true := (accepts_iff _ b).mpr hrange
  have hc' : (Opening.next ⟨2, low, high, n / 4096⟩ b).accepts c = true := by
    rw [accepts_iff, Opening.next, hc]
    simp only [UInt8.reduceToNat]
    omega
  have hn : (Opening.next ⟨2, low, high, n / 4096⟩ b).extend c = n := by
    have h : (Opening.next ⟨2, low, high, n / 4096⟩ b).extend c =
        (n / 4096 * 64 + (b.toNat - 0x80)) * 64 + (c.toNat - 0x80) := rfl
    omega
  rw [piecesAfter_open (by omega) ho, piecesAfter_next hb' (Nat.succ_ne_self 1),
    piecesAfter_last hc' rfl, hn]

theorem piecesAfter_four {n : Nat} {a b c d : UInt8} (hlow : 0x10000 ≤ n) (hhigh : n < 0x110000)
    (ha : a.toNat = 0xf0 + n / 262144) (hb : b.toNat = 0x80 + n / 4096 % 64)
    (hc : c.toNat = 0x80 + n / 64 % 64) (hd : d.toNat = 0x80 + n % 64) (rest : Bytes) :
    piecesAfter none (a :: b :: c :: d :: rest) = some (Char.ofNat n) :: piecesAfter none rest := by
  obtain ⟨low, high, ho, hrange⟩ : ∃ low high : UInt8,
      opening? a = some ⟨3, low, high, n / 262144⟩ ∧
        low.toNat ≤ b.toNat ∧ b.toNat ≤ high.toNat := by
    rw [opening?_eq, ha, hb, if_neg (by omega), if_neg (by omega), if_neg (by omega),
      if_neg (by omega)]
    by_cases h0 : n / 262144 = 0
    · exact ⟨0x90, 0xbf, by rw [if_pos (by omega), h0], by simp only [UInt8.reduceToNat]; omega⟩
    · rw [if_neg (by omega)]
      by_cases h4 : n / 262144 = 4
      · refine ⟨0x80, 0x8f, ?_, by simp only [UInt8.reduceToNat]; omega⟩
        rw [if_neg (by omega), if_pos (by omega), h4]
      · refine ⟨0x80, 0xbf, ?_, by simp only [UInt8.reduceToNat]; omega⟩
        rw [if_pos (by omega), Nat.add_sub_cancel_left]
  have hb' : Opening.accepts ⟨3, low, high, n / 262144⟩ b = true := (accepts_iff _ b).mpr hrange
  have hc' : (Opening.next ⟨3, low, high, n / 262144⟩ b).accepts c = true := by
    rw [accepts_iff, Opening.next, hc]
    simp only [UInt8.reduceToNat]
    omega
  have hd' : ((Opening.next ⟨3, low, high, n / 262144⟩ b).next c).accepts d = true := by
    rw [accepts_iff, Opening.next, hd]
    simp only [UInt8.reduceToNat]
    omega
  have hn : ((Opening.next ⟨3, low, high, n / 262144⟩ b).next c).extend d = n := by
    have h : ((Opening.next ⟨3, low, high, n / 262144⟩ b).next c).extend d =
        ((n / 262144 * 64 + (b.toNat - 0x80)) * 64 + (c.toNat - 0x80)) * 64 +
          (d.toNat - 0x80) := rfl
    omega
  rw [piecesAfter_open (by omega) ho, piecesAfter_next hb' (by show 3 ≠ 1; decide),
    piecesAfter_next hc' (Nat.succ_ne_self 1), piecesAfter_last hd' rfl, hn]

theorem piecesAfter_encodeChar (c : Char) (rest : Bytes) :
    piecesAfter none (encodeChar c ++ rest) = some c :: piecesAfter none rest := by
  have hvalid : c.toNat < 0xd800 ∨ 0xdfff < c.toNat ∧ c.toNat < 0x110000 := c.valid
  have hc : Char.ofNat c.toNat = c := Char.ofNat_toNat c
  rw [encodeChar]
  simp only [Nat.pow_eq, Nat.pow_zero, Nat.div_one, Nat.pow_one]
  split
  · rename_i h
    have hn : (UInt8.ofNat c.toNat).toNat = c.toNat := toNat_ofNat_of_lt (by omega)
    rw [List.singleton_append, piecesAfter_ascii (by omega), hn, hc]
  · split
    · refine (piecesAfter_two (n := c.toNat) (by omega) (by omega) ?_ ?_ rest).trans (by rw [hc])
      all_goals exact toNat_ofNat_of_lt (by omega)
    · split
      · refine (piecesAfter_three (n := c.toNat) (by omega) (by omega) (by omega) ?_ ?_ ?_
          rest).trans (by rw [hc])
        all_goals exact toNat_ofNat_of_lt (by omega)
      · refine (piecesAfter_four (n := c.toNat) (by omega) (by omega) ?_ ?_ ?_ ?_ rest).trans
          (by rw [hc])
        all_goals exact toNat_ofNat_of_lt (by omega)

/-! ## Texts -/

theorem pieces_encode (s : String) : pieces (encode s) = s.toList.map some := by
  have h : ∀ cs : List Char, piecesAfter none (cs.flatMap encodeChar) = cs.map some := by
    intro cs
    induction cs with
    | nil => rfl
    | cons c rest ih => rw [List.flatMap_cons, piecesAfter_encodeChar, ih, List.map_cons]
  exact h s.toList

/-- **Reading what was written** gives the text back. -/
theorem decodeLossy_encode (s : String) : decodeLossy (encode s) = s := by
  rw [decodeLossy, pieces_encode, List.map_map]
  show String.ofList (s.toList.map id) = s
  rw [List.map_id, String.ofList_toList]

end PluginManager.Text
