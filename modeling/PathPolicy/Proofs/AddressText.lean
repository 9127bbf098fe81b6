import PathPolicy.Address
import PathPolicy.Proofs.Words

/-! Addresses are read back from their texts, and the length of a network part from its mask. -/

namespace PathPolicy

namespace Ipv4

variable {ip : Ipv4}

theorem toList_text (ip : Ipv4) : ip.text.toList =
    Nat.toDigits 10 (ip.octet 24) ++ '.' :: (Nat.toDigits 10 (ip.octet 16) ++ '.' ::
      (Nat.toDigits 10 (ip.octet 8) ++ '.' :: Nat.toDigits 10 (ip.octet 0))) := by
  rw [text]
  dsimp only [toString]
  simp

theorem octet_lt (ip : Ipv4) (shift : Nat) : ip.octet shift < 256 :=
  (ip.extractLsb' shift 8).isLt

theorem ofOctets_octet (ip : Ipv4) :
    ofOctets (ip.octet 24) (ip.octet 16) (ip.octet 8) (ip.octet 0) = ip := by
  have hlt : ip.toNat < 4294967296 := ip.isLt
  refine BitVec.eq_of_toNat_eq ?_
  simp only [ofOctets, octet, BitVec.extractLsb'_toNat, Nat.shiftRight_eq_div_pow,
    BitVec.toNat_ofNat]
  omega

theorem octet?_toDigits {n : Nat} (h : n < 256) : octet? (Nat.toDigits 10 n) = some n := by
  have hall : ∀ n : Fin 256, octet? (Nat.toDigits 10 n) = some n.val := by decide +kernel
  exact hall ⟨n, h⟩

theorem notMem_text (ip : Ipv4) {c : Char} (hdigit : c.isDigit = false) (hdot : c ≠ '.') :
    c ∉ ip.text.toList := by
  simp [toList_text, Text.notMem_toDigits hdigit, hdot]

theorem ofChars?_text (ip : Ipv4) : ofChars? ip.text.toList = some ip := by
  have hfields : Text.fields '.' ip.text.toList = [Nat.toDigits 10 (ip.octet 24),
      Nat.toDigits 10 (ip.octet 16), Nat.toDigits 10 (ip.octet 8),
      Nat.toDigits 10 (ip.octet 0)] := by
    have hdot : ∀ n, '.' ∉ Nat.toDigits 10 n := Text.notMem_toDigits (by decide)
    rw [toList_text, Text.fields_append (hdot _),
      Text.fields_append (hdot _), Text.fields_append (hdot _),
      Text.fields_of_notMem (hdot _)]
  have hoctets : [Nat.toDigits 10 (ip.octet 24), Nat.toDigits 10 (ip.octet 16),
      Nat.toDigits 10 (ip.octet 8), Nat.toDigits 10 (ip.octet 0)].mapM octet? =
        some [ip.octet 24, ip.octet 16, ip.octet 8, ip.octet 0] := by
    simp [octet?_toDigits (ip.octet_lt _)]
  rw [ofChars?, hfields, hoctets]
  exact congrArg some ip.ofOctets_octet

theorem isWord_text (ip : Ipv4) : Text.IsWord ip.text.toList := by
  have hdot : Text.IsWord ['.'] := by decide
  rw [toList_text]
  exact (Text.isWord_toDigits _).append <| hdot.append <| (Text.isWord_toDigits _).append <|
    hdot.append <| (Text.isWord_toDigits _).append <| hdot.append <| Text.isWord_toDigits _

end Ipv4

namespace Address

variable {a : Address}

theorem weight_mask (a : Address) : a.mask.weight = a.length.val := by
  have hall : ∀ n : Fin 33, Ipv4.weight (BitVec.allOnes 32 <<< (32 - n.val)) = n.val := by
    decide +kernel
  exact hall a.length

theorem clamped_weight_mask (a : Address) : clamped a.ip a.mask.weight = a := by
  have hle : a.length.val ≤ 32 := by omega
  have hlength : (clamped a.ip a.mask.weight).length = a.length := by
    refine Fin.ext ?_
    change min a.mask.weight 32 = a.length.val
    rw [weight_mask, Nat.min_eq_left hle]
  exact congrArg (Address.mk a.ip) hlength

theorem toList_text (a : Address) :
    a.text.toList = a.ip.text.toList ++ '/' :: Nat.toDigits 10 a.length.val := by
  rw [text]
  dsimp only [toString]
  simp

theorem isWord_text (a : Address) : Text.IsWord a.text.toList := by
  have hslash : Text.IsWord ['/'] := by decide
  rw [toList_text]
  exact a.ip.isWord_text.append (hslash.append (Text.isWord_toDigits _))

theorem parse_text (a : Address) : parse a.text = .ok a := by
  have hlength : length? (Nat.toDigits 10 a.length.val) = some a.length := by
    have hlt : a.length.val < Text.limit32 := Nat.lt_trans a.length.isLt (by decide)
    rw [length?, Text.unsigned?_toDigits hlt]
    simp
  have hslash : '/' ∉ a.ip.text.toList := a.ip.notMem_text (by decide) (by decide)
  rw [parse, a.isWord_text.trim_eq, toList_text, Text.splitFirst_append hslash]
  simp only [Ipv4.ofChars?_text, hlength]

end Address

end PathPolicy
