import XorSyscalls.Foundation.MaskedMap

/-!
# XOR with a repeated key

What the two system calls are for: `xorCipher D K` XORs every byte of the data `D` with the byte of
the key `K` at the same position, the key being repeated as often as needed.  `xorReference` is the
plain sequential loop that does it, and `xorCipher_xorCipher` says that doing it twice with the
same key restores the data.
-/

namespace XorSyscalls

/-- The byte `v` at position `j`, XORed with the repeated key. -/
def xorAt (K : List UInt8) (j : ℕ) (v : UInt8) : UInt8 := v ^^^ K.getD (j % K.length) 0

/-- The data XORed with the repeated key. -/
def xorCipher (D K : List UInt8) : List UInt8 := D.mapIdx (xorAt K)

/-- The sequential loop `for (j = 0; j < data_len; ++j) data[j] ^= key[j % key_len]`. -/
def xorReference (D K : List UInt8) : List UInt8 :=
  (List.range D.length).foldl (fun buf j => buf.modify j (xorAt K j)) D

/-- XORing a byte twice restores it. -/
lemma xorAt_xorAt (K : List UInt8) (j : ℕ) (v : UInt8) : xorAt K j (xorAt K j v) = v := by
  simp only [xorAt, UInt8.xor_assoc, UInt8.xor_self, UInt8.xor_zero]

/-- With the same key, different bytes stay different. -/
lemma xorAt_left_inj {K : List UInt8} {j : ℕ} {v v' : UInt8} :
    xorAt K j v = xorAt K j v' ↔ v = v' :=
  UInt8.xor_left_inj _

/-- On the same byte, keys differ iff they differ in the byte used there. -/
lemma xorAt_right_inj {K K' : List UInt8} {j : ℕ} {v : UInt8} :
    xorAt K j v = xorAt K' j v ↔ K.getD (j % K.length) 0 = K'.getD (j % K'.length) 0 :=
  UInt8.xor_right_inj _

/-- A byte is left alone exactly by a zero byte of the key. -/
lemma xorAt_eq_self_iff {K : List UInt8} {j : ℕ} {v : UInt8} :
    xorAt K j v = v ↔ K.getD (j % K.length) 0 = 0 := by
  conv_lhs => rhs; rw [← UInt8.xor_zero (a := v)]
  exact UInt8.xor_right_inj v

@[simp] lemma length_xorCipher (D K : List UInt8) : (xorCipher D K).length = D.length := by
  simp [xorCipher]

/-- The cipher byte by byte. -/
lemma getElem?_xorCipher (D K : List UInt8) (j : ℕ) :
    (xorCipher D K)[j]? = D[j]?.map (xorAt K j) := by
  simp [xorCipher]

/-- The cipher is its own inverse. -/
theorem xorCipher_xorCipher (D K : List UInt8) : xorCipher (xorCipher D K) K = D := by
  refine List.ext_getElem? fun j => ?_
  rw [getElem?_xorCipher, getElem?_xorCipher, Option.map_map]
  have hid : xorAt K j ∘ xorAt K j = id := funext (xorAt_xorAt K j)
  rw [hid, Option.map_id, id]

/-- The sequential loop computes the cipher. -/
theorem xorReference_eq (D K : List UInt8) : xorReference D K = xorCipher D K := by
  rw [xorReference, foldl_modify_range]
  exact maskMap_eq_mapIdx fun j hj => hj

end XorSyscalls
