import Falryn.Lib.OrderedMap

/-!
# The blob store

Bytes that are addressed by where they belong (`domain/artifacts/blob.ts`), and the check that finalized bytes
still hash to their digest (`verifyStoredBytes`).  The hasher is a function of all bytes it was given.  An
operation that fails does nothing; which ones fail is up to the device.
-/

namespace Falryn.Recovery

/-- Where bytes live, addressed rather than pathed. -/
inductive BlobLocation where
  | content (digest : String)
  | quarantine (digest : String)
  | temporary (artifactId : String)
  deriving DecidableEq

/-- The bytes of a blob. -/
abbrev Bytes := List UInt8

/-- What the device holds. -/
abbrev Blobs := OrderedMap BlobLocation Bytes

namespace Blobs

/-- `finalize`: the atomic move of bytes that are there. -/
def finalize (blobs : Blobs) (source destination : BlobLocation) (bytes : Bytes) : Blobs :=
  (blobs.delete source).set destination bytes

variable {blobs : Blobs}

theorem get_finalize {source destination location : BlobLocation} {bytes : Bytes}
    (hsource : location ≠ source) (hdestination : location ≠ destination) :
    (blobs.finalize source destination bytes).get location = blobs.get location := by
  rw [finalize, OrderedMap.get_set_ne _ _ hdestination, OrderedMap.get_delete_ne _ hsource]

/-- The artifact a location is temporary for. -/
def temporaryOf : BlobLocation → Option String
  | .temporary artifactId => some artifactId
  | _ => none

/-- The artifacts with bytes in flight. -/
def temporaries (blobs : Blobs) : List String := blobs.keys.filterMap temporaryOf

theorem mem_temporaries {artifactId : String} :
    artifactId ∈ blobs.temporaries ↔ BlobLocation.temporary artifactId ∈ blobs.keys := by
  rw [temporaries, List.mem_filterMap]
  constructor
  · rintro ⟨location, hmem, heq⟩
    cases location <;> cases heq
    exact hmem
  · exact fun h => ⟨_, h, rfl⟩

end Blobs

/-- `VERIFICATION_CHUNK_BYTES`. -/
def verificationChunkBytes : ℕ := 1024 * 1024

/-- `readRange` of a blob that is there: what it read is shorter at the tail. -/
def readRange (bytes : Bytes) (offset length : ℕ) : Bytes := (bytes.drop offset).take length

section

variable (hash : Bytes → String)

/-- The loop of `verifyStoredBytes`, after `offset` bytes, `seen` of which were hashed. -/
def verifyFrom (bytes : Bytes) (digest : String) (byteLength : ℕ) (fails : ℕ → Bool) (offset : ℕ)
    (seen : Bytes) : Option Bool :=
  if offset < byteLength then
    if fails offset then none
    else if readRange bytes offset (min verificationChunkBytes (byteLength - offset)) = [] then some false
    else verifyFrom bytes digest byteLength fails
      (offset + (readRange bytes offset (min verificationChunkBytes (byteLength - offset))).length)
      (seen ++ readRange bytes offset (min verificationChunkBytes (byteLength - offset)))
  else some (hash seen = digest)
termination_by byteLength - offset
decreasing_by
  have hpos := List.length_pos_iff.2 ‹_›
  omega

/-- `verifyStoredBytes`: re-reads finalized bytes and re-hashes them.  `none` where a read failed. -/
def verifyStoredBytes (bytes : Bytes) (digest : String) (byteLength : ℕ) (fails : ℕ → Bool) : Option Bool :=
  verifyFrom hash bytes digest byteLength fails 0 []

/-- The first `byteLength` bytes are there and hash to the digest. -/
def Verifies (bytes : Bytes) (digest : String) (byteLength : ℕ) : Prop :=
  byteLength ≤ bytes.length ∧ hash (bytes.take byteLength) = digest

instance (bytes : Bytes) (digest : String) (byteLength : ℕ) :
    Decidable (Verifies hash bytes digest byteLength) := by
  unfold Verifies
  infer_instance

variable {hash} {bytes : Bytes} {digest : String} {byteLength : ℕ} {fails : ℕ → Bool}
  {answer : Bool}

theorem length_readRange (bytes : Bytes) (offset length : ℕ) :
    (readRange bytes offset length).length = min length (bytes.length - offset) := by
  rw [readRange, List.length_take, List.length_drop]

/-- Reading on where the last read stopped. -/
theorem take_append_readRange (offset length : ℕ) :
    bytes.take offset ++ readRange bytes offset length = bytes.take (offset + length) :=
  List.take_add.symm

/-- What the loop answers, whatever it has hashed so far. -/
theorem verifyFrom_spec {offset : ℕ} (hoffset : offset ≤ bytes.length)
    (hlength : offset ≤ byteLength)
    (h : verifyFrom hash bytes digest byteLength fails offset (bytes.take offset) = some answer) :
    answer = decide (Verifies hash bytes digest byteLength) := by
  rw [verifyFrom] at h
  split_ifs at h with hmore hfails hempty
  · -- fewer bytes on the device than the record claims
    have hshort : min (min verificationChunkBytes (byteLength - offset)) (bytes.length - offset) = 0 := by
      rw [← length_readRange, hempty, List.length_nil]
    have hchunk : 0 < verificationChunkBytes := by decide
    have hfew : ¬ byteLength ≤ bytes.length := by omega
    rw [← Option.some.inj h]
    exact (decide_eq_false fun hboth => hfew hboth.1).symm
  · have hread := length_readRange bytes offset (min verificationChunkBytes (byteLength - offset))
    have hpos := List.length_pos_iff.2 hempty
    have hfit : offset + (readRange bytes offset (min verificationChunkBytes (byteLength - offset))).length
        ≤ bytes.length := by omega
    have hseen : bytes.take offset ++ readRange bytes offset (min verificationChunkBytes (byteLength - offset))
        = bytes.take (offset
          + (readRange bytes offset (min verificationChunkBytes (byteLength - offset))).length) := by
      rw [take_append_readRange, hread]
      rcases le_total (min verificationChunkBytes (byteLength - offset)) (bytes.length - offset) with hle | hle
      · rw [min_eq_left hle]
      · rw [min_eq_right hle, List.take_of_length_le (by omega), List.take_of_length_le (by omega)]
    rw [hseen] at h
    exact verifyFrom_spec hfit (by omega) h
  · have hall : offset = byteLength := by omega
    rw [← Option.some.inj h, ← hall]
    exact decide_eq_decide.2 (and_iff_right hoffset).symm
termination_by byteLength - offset
decreasing_by omega

/-- **What the check answers.** -/
theorem verifyStoredBytes_spec
    (h : verifyStoredBytes hash bytes digest byteLength fails = some answer) :
    answer = decide (Verifies hash bytes digest byteLength) :=
  verifyFrom_spec (Nat.zero_le _) (Nat.zero_le _) (by simpa [verifyStoredBytes] using h)

/-- Without failures the loop answers. -/
theorem verifyFrom_isSome (h : ∀ offset, fails offset = false) (hash : Bytes → String) (bytes : Bytes)
    (digest : String) (byteLength offset : ℕ) (seen : Bytes) :
    (verifyFrom hash bytes digest byteLength fails offset seen).isSome := by
  rw [verifyFrom]
  split_ifs with hmore hfails hempty
  · rw [h] at hfails
    cases hfails
  · rfl
  · have hpos := List.length_pos_iff.2 hempty
    exact verifyFrom_isSome h _ _ _ _ _ _
  · rfl
termination_by byteLength - offset
decreasing_by omega

theorem verifyStoredBytes_of_not_fails (h : ∀ offset, fails offset = false) (hash : Bytes → String)
    (bytes : Bytes) (digest : String) (byteLength : ℕ) :
    verifyStoredBytes hash bytes digest byteLength fails
      = some (decide (Verifies hash bytes digest byteLength)) := by
  obtain ⟨answer, hanswer⟩ := Option.isSome_iff_exists.1
    (verifyFrom_isSome h hash bytes digest byteLength 0 [])
  rw [verifyStoredBytes, hanswer, verifyStoredBytes_spec hanswer]

end

end Falryn.Recovery
