import Kucomms.Mapping
import Kucomms.QueueInvariant

/-!
# The fields of a message

`struct Message` of `common/kucomms/message_queue.h`: four 64-bit fields, and
`m_length` bytes of data behind them. `DataMessage.make` is a message with
given fields and data, as the programs that send messages fill one in, and
`DataMessage.word` and `DataMessage.byte` are what is found through a pointer
to it. The two are inverse to each other (`DataMessage.make_fields` and the
rules for what is found in `make`).
-/

/-- **The bytes of a word that is loaded** are those it is loaded from. -/
theorem wordByte_load64 (p : Bytes) {k : ℕ} (hk : k < 8) :
    wordByte p.load64 k = p k := by
  have hdigit : ∀ d ∈ (List.range 8).map (fun k => (p k).toNat), d < 256 := by
    intro d hd
    obtain ⟨j, -, rfl⟩ := List.mem_map.mp hd
    exact (p j).toNat_lt
  have hlen : k < ((List.range 8).map (fun k => (p k).toNat)).length := by
    rwa [List.length_map, List.length_range]
  have hword : p.load64.toNat
      = Nat.ofDigits 256 ((List.range 8).map (fun k => (p k).toNat)) :=
    UInt64.toNat_ofNat_of_lt' (by
      have := Nat.ofDigits_lt_base_pow_length (by decide) hdigit
      rw [List.length_map, List.length_range] at this
      exact this)
  unfold wordByte
  rw [hword, Nat.ofDigits_div_pow_eq_ofDigits_drop k (by decide) _ hdigit,
    List.drop_eq_getElem_cons hlen, Nat.ofDigits_cons, List.getElem_map,
    List.getElem_range, ← UInt8.toNat_inj, UInt8.toNat_ofNat']
  show ((p k).toNat + 256 * _) % 256 = _
  rw [Nat.add_mul_mod_self_left, Nat.mod_eq_of_lt (p k).toNat_lt]

namespace DataMessage

/-- The offsets of the fields behind `m_length`. -/
abbrev offType : ℕ := 8

/-- The offset of `m_id`. -/
abbrev offId : ℕ := 16

/-- The offset of `m_userValue`. -/
abbrev offUserValue : ℕ := 24

/-- The 64-bit field at an offset. -/
def word (m : DataMessage) (k : ℕ) : UInt64 :=
  Bytes.load64 (fun i => m.mem (k + i))

/-- `m_length`. -/
def mLength (m : DataMessage) : UInt64 := m.mem.mLength

/-- `m_type`. -/
def mType (m : DataMessage) : UInt64 := m.word offType

/-- `m_id`. -/
def mId (m : DataMessage) : UInt64 := m.word offId

/-- `m_userValue`. -/
def mUserValue (m : DataMessage) : UInt64 := m.word offUserValue

/-- A byte of the data. -/
def mData (m : DataMessage) (k : ℕ) : UInt8 := m.mem (32 + k)

/-- Memory with `data` behind a header. -/
def behindHeader (data : Bytes) : Bytes := fun k => data (k - 32)

/-- The memory of a message with the given fields and data. -/
def image (length type id userValue : UInt64) (data : Bytes) : Bytes :=
  ((((behindHeader data).store64 offUserValue userValue).store64
    offId id).store64 offType type).store64 0 length

/-- **The message with the given fields and data.** -/
def make (length type id userValue : UInt64) (data : Bytes) : DataMessage :=
  ofMem (image length type id userValue data)

section Make

variable (length type id userValue : UInt64) (data : Bytes)

theorem mLength_image :
    (image length type id userValue data).mLength = length := by
  have h := Bytes.load64_store64 ((((behindHeader data).store64 offUserValue
    userValue).store64 offId id).store64 offType type) 0 length
  simp only [Nat.zero_add] at h
  exact h

@[simp] theorem size_make :
    (make length type id userValue data).size = length.toNat + 32 := by
  rw [make, size_ofMem, mLength_image]

/-- What is found in it, byte by byte. -/
theorem mem_make {k : ℕ} (hk : k < length.toNat + 32) :
    (make length type id userValue data).mem k
      = image length type id userValue data k := by
  refine mem_ofMem ?_
  rw [size_ofMem, mLength_image]
  exact hk

/-- What is found in its header, field by field. -/
theorem word_make {k : ℕ} (hk : k + 8 ≤ 32) :
    (make length type id userValue data).word k
      = Bytes.load64 (fun i => image length type id userValue data (k + i)) :=
  Bytes.mLength_congr (fun i hi => mem_make _ _ _ _ _ (by omega))

@[simp] theorem mLength_make :
    (make length type id userValue data).mLength = length := by
  refine Eq.trans (Bytes.mLength_congr (fun i hi => mem_make _ _ _ _ _ ?_))
    (mLength_image length type id userValue data)
  omega

@[simp] theorem mType_make :
    (make length type id userValue data).mType = type := by
  rw [mType, word_make _ _ _ _ _ (by decide), image,
    Bytes.load64_store64_of_ne (by decide), Bytes.load64_store64]

@[simp] theorem mId_make :
    (make length type id userValue data).mId = id := by
  rw [mId, word_make _ _ _ _ _ (by decide), image,
    Bytes.load64_store64_of_ne (by decide),
    Bytes.load64_store64_of_ne (by decide), Bytes.load64_store64]

@[simp] theorem mUserValue_make :
    (make length type id userValue data).mUserValue = userValue := by
  rw [mUserValue, word_make _ _ _ _ _ (by decide), image,
    Bytes.load64_store64_of_ne (by decide),
    Bytes.load64_store64_of_ne (by decide),
    Bytes.load64_store64_of_ne (by decide), Bytes.load64_store64]

theorem mData_make {k : ℕ} (hk : k < length.toNat) :
    (make length type id userValue data).mData k = data k := by
  rw [mData, mem_make _ _ _ _ _ (by omega), image,
    Bytes.store64_of_ne (.inr (by omega)),
    Bytes.store64_of_ne (.inr (by show 8 + 8 ≤ _; omega)),
    Bytes.store64_of_ne (.inr (by show 16 + 8 ≤ _; omega)),
    Bytes.store64_of_ne (.inr (by show 24 + 8 ≤ _; omega)), behindHeader,
    Nat.add_sub_cancel_left]

end Make

/-- **A message is made of its fields.** -/
theorem make_fields (m : DataMessage) :
    make m.mLength m.mType m.mId m.mUserValue m.mData = m := by
  have hsize := m.size_eq
  unfold make
  refine m.ofMem_eq (fun k hk => ?_)
  -- each of the four words, and what is behind them
  have hword : ∀ {j : ℕ} (mem : Bytes), j ≤ k → k < j + 8 →
      mem.store64 j (m.word j) k = m.mem k := fun {j} mem hle hlt => by
    rw [Bytes.store64, if_pos ⟨hle, hlt⟩]
    refine (wordByte_load64 _ (by omega)).trans ?_
    rw [Nat.add_sub_cancel' hle]
  have hlength : m.mLength = m.word 0 := by
    unfold mLength word
    simp only [Nat.zero_add]
    rfl
  have himage : image m.mLength m.mType m.mId m.mUserValue m.mData
      = ((((behindHeader m.mData).store64 24 (m.word 24)).store64 16
        (m.word 16)).store64 8 (m.word 8)).store64 0 (m.word 0) := by
    rw [image, hlength, mType, mId, mUserValue]
  rw [himage]
  by_cases h0 : k < 8
  · exact hword _ (by omega) (by omega)
  rw [Bytes.store64_of_ne (.inr (by omega))]
  by_cases h8 : k < 16
  · exact hword _ (by omega) (by omega)
  rw [Bytes.store64_of_ne (.inr (by omega))]
  by_cases h16 : k < 24
  · exact hword _ (by omega) (by omega)
  rw [Bytes.store64_of_ne (.inr (by omega))]
  by_cases h24 : k < 32
  · exact hword _ (by omega) (by omega)
  rw [Bytes.store64_of_ne (.inr (by omega)), behindHeader, mData,
    Nat.add_sub_cancel' (by omega)]

end DataMessage
