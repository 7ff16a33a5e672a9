import Mathlib.Data.List.Basic
import Mathlib.Tactic.IntervalCases
import SchemaBinding.Uri.Percent

/-! Texts as bytes and back. The first byte of a character tells how many follow and between which bounds the second one
has to be, and these bounds leave room for every character. A percent sign and two hex digits stand for one byte.
Main statements: the bytes of a text are read as that text; an encoded text is decoded to the bytes of the text if percent
signs are encoded too. -/
namespace SchemaBinding
namespace Utf8

/-! ## One character -/

theorem toNat_byte {n : Nat} (h : n < 256) : (UInt8.ofNat n).toNat = n := UInt8.toNat_ofNat_of_lt' h

theorem lead_ascii {n : Nat} (h : n < 0x80) : lead (UInt8.ofNat n) = .scalar (Char.ofNat n) := by
  rw [lead,toNat_byte (by omega),if_pos h]

theorem lead_of_two {n : Nat} (hn : 2 ≤ n) (h : n < 32) :
    lead (UInt8.ofNat (0xC0 + n)) = .opens { more := 0, value := n } := by
  interval_cases n <;> rfl

theorem lead_of_three {n : Nat} (h : n < 16) : lead (UInt8.ofNat (0xE0 + n)) =
    .opens { more := 1, value := n, low := if n = 0 then 0xA0 else 0x80, high := if n = 13 then 0x9F else 0xBF } := by
  interval_cases n <;> rfl

theorem lead_of_four {n : Nat} (h : n < 5) : lead (UInt8.ofNat (0xF0 + n)) =
    .opens { more := 2, value := n, low := if n = 0 then 0x90 else 0x80, high := if n = 4 then 0x8F else 0xBF } := by
  interval_cases n <;> rfl

namespace Decoder
variable {pieces : List (Option Char)} {p : Pending} {n : Nat}

theorem feed_lead {b : UInt8} (h : lead b = .opens p) : feed { pieces } b = { pieces, pending := some p } := by
  simp [feed,start,h]

/-- A byte in the bounds gives a character six more bits. -/
theorem feed_tail (h : n < 64) (hlow : p.low.toNat ≤ 0x80 + n) (hhigh : 0x80 + n ≤ p.high.toNat) :
    feed { pieces, pending := some p } (UInt8.ofNat (0x80 + n)) =
      match p.more with
      | 0 => { pieces := some (Char.ofNat (p.value * 64 + n)) :: pieces }
      | more + 1 => { pieces, pending := some { more, value := p.value * 64 + n } } := by
  have hbyte : (UInt8.ofNat (0x80 + n)).toNat = 0x80 + n := toNat_byte (by omega)
  have hbounds : (p.low ≤ UInt8.ofNat (0x80 + n) && UInt8.ofNat (0x80 + n) ≤ p.high) = true := by
    simp [UInt8.le_iff_toNat_le,hbyte,hlow,hhigh,-UInt8.ofNat_add]
  have hvalue : p.value * 64 + (UInt8.ofNat (0x80 + n)).toNat % 64 = p.value * 64 + n := by
    rw [hbyte]
    omega
  cases hmore : p.more <;> simp only [feed,hbounds,if_true,hvalue,hmore]

/-- The bytes of a character are read as that character. -/
theorem foldl_feed_encodeChar (pieces : List (Option Char)) (c : Char) :
    (encodeChar c).foldl feed { pieces } = { pieces := some c :: pieces } := by
  have hvalid : c.toNat < 0xD800 ∨ 0xDFFF < c.toNat ∧ c.toNat < 0x110000 := c.valid
  have hread {n : Nat} (h : n = c.toNat) :
      ({ pieces := some (Char.ofNat n) :: pieces } : Decoder) = { pieces := some c :: pieces } := by
    rw [h,Char.ofNat_toNat]
  have htail (n : Nat) : n % 64 < 64 := Nat.mod_lt n (by decide)
  unfold encodeChar
  dsimp only
  -- one case for each length: that the second byte is in its bounds follows from the least character of the length where
  -- there is a lower bound, and from the gap of the surrogates or the greatest character where there is an upper one
  split
  · rename_i h
    simp [feed,start,lead_ascii h]
  split
  · rw [List.foldl_cons,feed_lead (lead_of_two (by omega) (by omega)),List.foldl_cons,
      feed_tail (htail _) (by simp) (by simp; omega)]
    exact hread (by dsimp only; omega)
  split
  · rw [List.foldl_cons,feed_lead (lead_of_three (by omega)),List.foldl_cons,
      feed_tail (htail _) (by dsimp only; split <;> simp; omega) (by dsimp only; split <;> (simp; omega))]
    dsimp only
    rw [List.foldl_cons,feed_tail (htail _) (by simp) (by simp; omega)]
    exact hread (by dsimp only; omega)
  · rw [List.foldl_cons,feed_lead (lead_of_four (by omega)),List.foldl_cons,
      feed_tail (htail _) (by dsimp only; split <;> simp; omega) (by dsimp only; split <;> (simp; omega))]
    dsimp only
    rw [List.foldl_cons,feed_tail (htail _) (by simp) (by simp; omega)]
    dsimp only
    rw [List.foldl_cons,feed_tail (htail _) (by simp) (by simp; omega)]
    exact hread (by dsimp only; omega)

end Decoder

/-! ## A text -/

theorem foldl_feed_encode (pieces : List (Option Char)) (cs : List Char) :
    (encode cs).foldl Decoder.feed { pieces } = { pieces := (cs.map some).reverse ++ pieces } := by
  induction cs generalizing pieces with
  | nil => rfl
  | cons c cs ih =>
    have hcons : encode (c :: cs) = encodeChar c ++ encode cs := rfl
    rw [hcons,List.foldl_append,Decoder.foldl_feed_encodeChar,ih]
    simp

/-- The bytes of a text are read as that text. -/
theorem decode?_encode (cs : List Char) : decode? (encode cs) = some cs := by
  have hpieces : pieces (encode cs) = cs.map some := by
    rw [pieces,foldl_feed_encode]
    simp [Decoder.finish]
  rw [decode?,hpieces]
  clear hpieces
  induction cs with
  | nil => rfl
  | cons c cs ih => simp [ih]

theorem decodeString?_encode (cs : List Char) : decodeString? (encode cs) = some (String.ofList cs) := by
  rw [decodeString?,decode?_encode,Option.map_some]

theorem encode_injective {cs ds : List Char} (h : encode cs = encode ds) : cs = ds := by
  have hsome : some cs = some ds := by rw [← decode?_encode cs,h,decode?_encode]
  exact Option.some.inj hsome

theorem encodeChar_ascii {c : Char} (h : c.toNat < 0x80) : encodeChar c = [UInt8.ofNat c.toNat] := if_pos h

/-- A character outside of ASCII has no byte of ASCII. -/
theorem le_encodeChar {c : Char} (h : ¬ c.toNat < 0x80) : ∀ b ∈ encodeChar c, 0x80 ≤ b.toNat := by
  have hvalid : c.toNat < 0xD800 ∨ 0xDFFF < c.toNat ∧ c.toNat < 0x110000 := c.valid
  have hbyte {n : Nat} (hn : 0x80 ≤ n) (hsize : n < 256) : 0x80 ≤ (UInt8.ofNat n).toNat := by rwa [toNat_byte hsize]
  have htail (n : Nat) : 0x80 ≤ (UInt8.ofNat (0x80 + n % 64)).toNat := hbyte (by omega) (by omega)
  unfold encodeChar
  dsimp only
  rw [if_neg h]
  split
  · simp only [List.forall_mem_cons]
    exact ⟨hbyte (by omega) (by omega),htail _,by simp⟩
  split
  · simp only [List.forall_mem_cons]
    exact ⟨hbyte (by omega) (by omega),htail _,htail _,by simp⟩
  · simp only [List.forall_mem_cons]
    exact ⟨hbyte (by omega) (by omega),htail _,htail _,htail _,by simp⟩

end Utf8

namespace Uri
namespace Percent

theorem hexValue?_hexDigit : ∀ n : Fin 16, hexValue? (hexDigit n) = some n.val := by decide

/-- An encoded byte is decoded to that byte. -/
theorem decode_encodeByte (b : UInt8) (rest : List Char) : decode (encodeByte b ++ rest) = b :: decode rest := by
  have hsize : b.toNat < 256 := b.toNat_lt
  have hhigh := hexValue?_hexDigit ⟨b.toNat / 16,by omega⟩
  have hlow := hexValue?_hexDigit ⟨b.toNat % 16,by omega⟩
  dsimp only at hhigh hlow
  have hbyte : UInt8.ofNat (b.toNat / 16 * 16 + b.toNat % 16) = b := by
    rw [Nat.div_add_mod',UInt8.ofNat_toNat]
  simp only [encodeByte,List.cons_append,List.nil_append,decode,hhigh,hlow,hbyte]

theorem decode_bytes (bytes : Bytes) (rest : List Char) : decode (bytes.flatMap encodeByte ++ rest) = bytes ++ decode rest := by
  induction bytes with
  | nil => rfl
  | cons b bytes ih => rw [List.flatMap_cons,List.append_assoc,decode_encodeByte,ih,List.cons_append]

theorem decode_cons {c : Char} (h : c ≠ '%') (rest : List Char) : decode (c :: rest) = Utf8.encodeChar c ++ decode rest := by
  rw [decode]
  intro _ _ _ hc _
  exact h hc

/-- Where the percent sign is among the characters that are encoded, decoding gives the text back. -/
theorem decode_encode {set : Char → Bool} (h : set '%' = true) (cs : List Char) : decode (encode set cs) = Utf8.encode cs := by
  induction cs with
  | nil => rfl
  | cons c cs ih =>
    have hcons : encode set (c :: cs) = encodeChar set c ++ encode set cs := rfl
    have htext : Utf8.encode (c :: cs) = Utf8.encodeChar c ++ Utf8.encode cs := rfl
    rw [hcons,htext,encodeChar]
    split
    · rw [decode_bytes,ih]
    · have hc : c ≠ '%' := by
        rintro rfl
        contradiction
      rw [List.singleton_append,decode_cons hc,ih]

theorem encode_eq_self {set : Char → Bool} {cs : List Char} (h : ∀ c ∈ cs, set c = false) : encode set cs = cs := by
  induction cs with
  | nil => rfl
  | cons c cs ih =>
    have hcons : encode set (c :: cs) = encodeChar set c ++ encode set cs := rfl
    rw [hcons,encodeChar,if_neg (by simp [h c (by simp)]),ih fun d hd => h d (by simp [hd]),List.singleton_append]

theorem encode_injective (set : Char → Bool) (h : set '%' = true) {cs ds : List Char} (heq : encode set cs = encode set ds) :
    cs = ds := by
  apply Utf8.encode_injective
  rw [← decode_encode h,heq,decode_encode h]

/-- An encoded text has percent signs, and otherwise only characters that need not be encoded. -/
theorem mem_encode {set : Char → Bool} (hset : ∀ n : Fin 16, set (hexDigit n) = false) {cs : List Char} {c : Char}
    (h : c ∈ encode set cs) : c = '%' ∨ set c = false := by
  obtain ⟨d,_,hd⟩ := List.mem_flatMap.mp h
  unfold encodeChar at hd
  split at hd
  · obtain ⟨b,_,hb⟩ := List.mem_flatMap.mp hd
    have hsize : b.toNat < 256 := b.toNat_lt
    have hhigh := hset ⟨b.toNat / 16,by omega⟩
    have hlow := hset ⟨b.toNat % 16,by omega⟩
    simp only [encodeByte,List.mem_cons,List.not_mem_nil,or_false] at hb
    rcases hb with rfl | rfl | rfl
    · exact .inl rfl
    · exact .inr hhigh
    · exact .inr hlow
  · obtain rfl : c = d := by simpa using hd
    simp_all

end Percent
end Uri
end SchemaBinding
