import TalkDeck.Text.Percent

/-
Percent-encoding is read back.

The octets of a character open it with the bounds that its second octet keeps (`Utf8.lead_two`,
`Utf8.lead_three`, `Utf8.lead_four`), so the reader ends on the character itself (`Utf8.scan_char`).
An octet written with a percent sign is read back from its two digits, and a character that is kept is
no percent sign (`Percent.octets_encode`); hence `Percent.decode_encode`.  An encoded text has none of
the characters that divide the text of a link (`Percent.not_mem_encode`), and it is the text itself only
where every character is kept (`Percent.encode_eq_self`).
-/

namespace TalkDeck
namespace Text

/-! ## UTF-8 -/

namespace Utf8

variable {at_ v : Nat} {b : UInt8} {bs : List UInt8} {o : Open}

theorem toNat_octet {n : Nat} (h : n < 256) : (UInt8.ofNat n).toNat = n := by
  rw [UInt8.toNat_ofNat']
  exact Nat.mod_eq_of_lt h

theorem scan_opens (h : lead at_ b = .opens o) :
    scan at_ none (b :: bs) = scan (at_ + 1) (some o) bs := by
  rw [scan, h]

/-- A character is open that owes some octets, has some bits, and admits the next octet. -/
structure Opens (owed bits next : Nat) (o : Open) : Prop where
  owed : o.owed = owed
  bits : o.bits = bits
  least : o.least ≤ next
  most : next ≤ o.most

theorem lead_one (h : v ≤ 0x7F) : lead at_ (UInt8.ofNat v) = .char (Char.ofNat v) := by
  rw [lead, toNat_octet (by omega)]
  exact if_pos (by omega)

theorem lead_two (at_ : Nat) (hleast : 0x80 ≤ v) (hmost : v ≤ 0x7FF) :
    ∃ o, lead at_ (UInt8.ofNat (v / 64 % 32 + 192)) = .opens o ∧
      Opens 1 (v / 64) (v % 64 + 128) o := by
  unfold lead
  dsimp only
  rw [toNat_octet (by omega), if_neg (by omega), if_pos (by omega)]
  refine ⟨_, rfl, rfl, ?_, ?_, ?_⟩ <;> dsimp only <;> omega

theorem lead_three (at_ : Nat) (hleast : 0x800 ≤ v) (hmost : v ≤ 0xFFFF) (hvalid : v < 0xD800 ∨ 0xDFFF < v) :
    ∃ o, lead at_ (UInt8.ofNat (v / 4096 % 16 + 224)) = .opens o ∧
      Opens 2 (v / 4096) (v / 64 % 64 + 128) o := by
  unfold lead
  dsimp only
  rw [toNat_octet (by omega), if_neg (by omega), if_neg (by omega)]
  by_cases hlow : v / 4096 % 16 + 224 = 0xE0
  · rw [if_pos hlow]
    refine ⟨_, rfl, rfl, ?_, ?_, ?_⟩ <;> dsimp only <;> omega
  · rw [if_neg hlow]
    by_cases hhigh : v / 4096 % 16 + 224 = 0xED
    · rw [if_pos hhigh]
      refine ⟨_, rfl, rfl, ?_, ?_, ?_⟩ <;> dsimp only <;> omega
    · rw [if_neg hhigh, if_pos (by omega)]
      refine ⟨_, rfl, rfl, ?_, ?_, ?_⟩ <;> dsimp only <;> omega

theorem lead_four (at_ : Nat) (hleast : 0x10000 ≤ v) (hmost : v < 0x110000) :
    ∃ o, lead at_ (UInt8.ofNat (v / 262144 % 8 + 240)) = .opens o ∧
      Opens 3 (v / 262144) (v / 4096 % 64 + 128) o := by
  unfold lead
  dsimp only
  rw [toNat_octet (by omega), if_neg (by omega), if_neg (by omega), if_neg (by omega),
    if_neg (by omega), if_neg (by omega)]
  by_cases hlow : v / 262144 % 8 + 240 = 0xF0
  · rw [if_pos hlow]
    refine ⟨_, rfl, rfl, ?_, ?_, ?_⟩ <;> dsimp only <;> omega
  · rw [if_neg hlow]
    by_cases hmiddle : 0xF1 ≤ v / 262144 % 8 + 240 ∧ v / 262144 % 8 + 240 ≤ 0xF3
    · rw [if_pos hmiddle]
      refine ⟨_, rfl, rfl, ?_, ?_, ?_⟩ <;> dsimp only <;> omega
    · rw [if_neg hmiddle, if_pos (by omega)]
      refine ⟨_, rfl, rfl, ?_, ?_, ?_⟩ <;> dsimp only <;> omega

theorem toNat_tail (n : Nat) : (UInt8.ofNat (n % 64 + 128)).toNat = n % 64 + 128 :=
  toNat_octet (by omega)

/-- The last octet of a character gives the character. -/
theorem scan_last {bits n : Nat} (h : Opens 1 bits (n % 64 + 128) o) :
    scan at_ (some o) (UInt8.ofNat (n % 64 + 128) :: bs) =
      .ok (Char.ofNat (bits * 64 + n % 64)) :: scan (at_ + 1) none bs := by
  rw [scan, toNat_tail]
  dsimp only
  rw [if_pos ⟨h.least, h.most⟩, if_pos (Nat.le_of_eq h.owed), h.bits, Nat.add_sub_cancel]

/-- An octet before that adds its six bits, and any such octet may come next. -/
theorem scan_tail {owed bits n : Nat} (h : Opens (owed + 2) bits (n % 64 + 128) o) (m : Nat) :
    ∃ o', scan at_ (some o) (UInt8.ofNat (n % 64 + 128) :: bs) = scan (at_ + 1) (some o') bs ∧
      Opens (owed + 1) (bits * 64 + n % 64) (m % 64 + 128) o' := by
  have howed : ¬o.owed ≤ 1 := by
    rw [h.owed]
    omega
  rw [scan, toNat_tail]
  dsimp only
  rw [if_pos ⟨h.least, h.most⟩, if_neg howed, h.owed, h.bits, Nat.add_sub_cancel]
  refine ⟨_, rfl, rfl, rfl, ?_, ?_⟩ <;> dsimp only <;> omega

/-- The octets of a character are read as the character. -/
theorem scan_char (c : Char) (at_ : Nat) (bs : List UInt8) :
    ∃ next, scan at_ none (String.utf8EncodeChar c ++ bs) = .ok c :: scan next none bs := by
  have hchar : Char.ofNat c.val.toNat = c := Char.ofNat_toNat c
  have hvalid : c.val.toNat < 0xD800 ∨ 0xDFFF < c.val.toNat ∧ c.val.toNat < 0x110000 := c.valid
  rw [String.utf8EncodeChar]
  generalize c.val.toNat = v at hchar hvalid
  split
  · next h =>
    refine ⟨at_ + 1, ?_⟩
    rw [List.singleton_append, scan, lead_one h, hchar]
  · next hone =>
    split
    · next h =>
      obtain ⟨o, ho, hopens⟩ := lead_two at_ (by omega) h
      refine ⟨at_ + 1 + 1, ?_⟩
      rw [List.cons_append, scan_opens ho, List.singleton_append, scan_last hopens,
        Nat.div_add_mod' v 64, hchar]
    · next htwo =>
      split
      · next h =>
        obtain ⟨o, ho, hopens⟩ := lead_three at_ (by omega) h (by omega)
        obtain ⟨o', ho', hlast⟩ := scan_tail hopens v
        have hbits : (v / 4096 * 64 + v / 64 % 64) * 64 + v % 64 = v := by omega
        refine ⟨at_ + 1 + 1 + 1, ?_⟩
        simp only [List.cons_append, List.nil_append]
        rw [scan_opens ho, ho', scan_last hlast, hbits, hchar]
      · next hthree =>
        obtain ⟨o, ho, hopens⟩ := lead_four at_ (Nat.lt_of_not_le hthree) (by omega)
        obtain ⟨o', ho', hthird⟩ := scan_tail hopens (v / 64)
        obtain ⟨o'', ho'', hlast⟩ := scan_tail hthird v
        have hbits : ((v / 262144 * 64 + v / 4096 % 64) * 64 + v / 64 % 64) * 64 + v % 64 = v := by
          omega
        refine ⟨at_ + 1 + 1 + 1 + 1, ?_⟩
        simp only [List.cons_append, List.nil_append]
        rw [scan_opens ho, ho', ho'', scan_last hlast, hbits, hchar]

theorem scan_encode (cs : List Char) (at_ : Nat) : scan at_ none (encode cs) = cs.map .ok := by
  induction cs generalizing at_ with
  | nil => rfl
  | cons c cs ih =>
    obtain ⟨next, hnext⟩ := scan_char c at_ (encode cs)
    rw [encode, List.flatMap_cons, List.map_cons]
    exact hnext.trans (congrArg _ (ih next))

/-- A text is read back from its octets. -/
theorem decodeLossy_encode (cs : List Char) : decodeLossy (encode cs) = cs := by
  rw [decodeLossy, scan_encode, List.map_map]
  exact List.map_id cs

end Utf8

/-! ## Percent-encoding -/

namespace Percent

theorem hexValue?_upperHex {n : Nat} (h : n < 16) : hexValue? (upperHex n) = some n := by
  have hall : ∀ m : Fin 16, hexValue? (upperHex m) = some m.val := by decide
  exact hall ⟨n, h⟩

theorem octets_cons {c : Char} (hc : c ≠ '%') (cs : List Char) :
    octets (c :: cs) = String.utf8EncodeChar c ++ octets cs :=
  octets.eq_2 c cs fun _ _ _ heq _ => hc heq

/-- An octet is read back from its two digits. -/
theorem octets_encodeOctet (b : UInt8) (cs : List Char) :
    octets (encodeOctet b ++ cs) = b :: octets cs := by
  have hlt : b.toNat < 256 := b.toNat_lt
  have hhigh := hexValue?_upperHex (n := b.toNat / 16) (by omega)
  have hlow := hexValue?_upperHex (n := b.toNat % 16) (by omega)
  show octets ('%' :: upperHex (b.toNat / 16) :: upperHex (b.toNat % 16) :: cs) = _
  rw [octets, hhigh, hlow]
  dsimp only
  rw [Nat.div_add_mod, UInt8.ofNat_toNat]

theorem octets_encodeOctets (bs : List UInt8) (cs : List Char) :
    octets (bs.flatMap encodeOctet ++ cs) = bs ++ octets cs := by
  induction bs with
  | nil => rfl
  | cons b bs ih => rw [List.flatMap_cons, List.append_assoc, octets_encodeOctet, ih, List.cons_append]

/-- Whatever is kept, if the percent sign is not, an encoded text stands for the octets of the text. -/
theorem octets_encode {keep : Char → Bool} (hkeep : keep '%' = false) (cs : List Char) :
    octets (encode keep cs) = Utf8.encode cs := by
  induction cs with
  | nil => rfl
  | cons c cs ih =>
    rw [encode, List.flatMap_cons, Utf8.encode, List.flatMap_cons]
    by_cases hc : keep c = true
    · have hne : c ≠ '%' := by
        intro heq
        rw [heq, hkeep] at hc
        cases hc
      rw [if_pos hc, List.singleton_append, octets_cons hne]
      exact congrArg _ ih
    · rw [if_neg hc, octets_encodeOctets]
      exact congrArg _ ih

/-- An encoded text is read back. -/
theorem decode_encode {keep : Char → Bool} (hkeep : keep '%' = false) (cs : List Char) :
    decode (encode keep cs) = cs := by
  rw [decode, octets_encode hkeep, Utf8.decodeLossy_encode]

/-- What an encoded text is written with. -/
def isEncoded (c : Char) : Bool := isUnreserved c || c == '%'

theorem isEncoded_upperHex {n : Nat} (h : n < 16) : isEncoded (upperHex n) = true := by
  have hall : ∀ m : Fin 16, isEncoded (upperHex m) = true := by decide
  exact hall ⟨n, h⟩

theorem isEncoded_of_mem_encode {cs : List Char} {c : Char} (h : c ∈ encode isUnreserved cs) :
    isEncoded c = true := by
  obtain ⟨a, -, hc⟩ := List.mem_flatMap.mp h
  split at hc
  · next ha =>
    rw [List.mem_singleton.mp hc, isEncoded, ha]
    rfl
  · obtain ⟨b, -, hc⟩ := List.mem_flatMap.mp hc
    have hlt : b.toNat < 256 := b.toNat_lt
    rcases List.mem_cons.mp hc with rfl | hc
    · rfl
    · rcases List.mem_cons.mp hc with rfl | hc
      · exact isEncoded_upperHex (by omega)
      · rw [List.mem_singleton.mp hc]
        exact isEncoded_upperHex (by omega)

/-- A character that is neither unreserved nor the percent sign is not in an encoded text. -/
theorem not_mem_encode {c : Char} (h : isEncoded c = false) (cs : List Char) :
    c ∉ encode isUnreserved cs := by
  intro hc
  rw [isEncoded_of_mem_encode hc] at h
  cases h

theorem one_lt_length_encodeOctets (c : Char) :
    1 < ((String.utf8EncodeChar c).flatMap encodeOctet).length := by
  have hpos : 0 < (String.utf8EncodeChar c).length := by
    rw [String.length_utf8EncodeChar]
    exact c.utf8Size_pos
  obtain ⟨b, bs, hbs⟩ := List.exists_cons_of_length_pos hpos
  rw [hbs, List.flatMap_cons, List.length_append]
  show 1 < 3 + _
  omega

theorem length_le_encode (keep : Char → Bool) (cs : List Char) :
    cs.length ≤ (encode keep cs).length := by
  induction cs with
  | nil => exact Nat.le_refl 0
  | cons c cs ih =>
    rw [encode, List.flatMap_cons, List.length_append, List.length_cons, ← encode]
    split
    · rw [List.length_singleton]
      omega
    · have hlong := one_lt_length_encodeOctets c
      omega

/-- A text is left as it is if all of its characters are kept, and only then, since any other becomes
longer. -/
theorem encode_eq_self {keep : Char → Bool} {cs : List Char} :
    encode keep cs = cs ↔ ∀ c ∈ cs, keep c = true := by
  induction cs with
  | nil => exact ⟨fun _ => nofun, fun _ => rfl⟩
  | cons c cs ih =>
    have hrest := length_le_encode keep cs
    rw [List.forall_mem_cons, ← ih, encode, List.flatMap_cons, ← encode]
    by_cases hc : keep c = true
    · rw [if_pos hc, List.singleton_append, List.cons_inj_right]
      exact ⟨fun h => ⟨hc, h⟩, fun h => h.2⟩
    · rw [if_neg hc]
      refine ⟨fun h => ?_, fun h => absurd h.1 hc⟩
      have hlong := one_lt_length_encodeOctets c
      have hlength := congrArg List.length h
      rw [List.length_append, List.length_cons] at hlength
      omega

end Percent
end Text
end TalkDeck
