import Aethon.Codec.Crc
import Aethon.Codec.BinaryReader
import Aethon.Codec.BinaryWriter
import Aethon.Protocol.CorruptionDetection

/-!
# The envelope cipher

A sealed message is a tag of four bytes and the plain text under a repeated key, after
`crypto/crypto.cpp`. The tag is the checksum of the key against that of the plain text, so opening
is the inverse of sealing, and `envelope_cipher` says what damage it notices. `make_cipher` picks it
or the cipher that passes everything through.
-/

namespace Aethon.Crypto

open Codec Protocol LittleEndian

/-- A key and the identifier that travels with a message. -/
structure KeyMaterial where
  bytes : Bytes := []
  keyId : UInt32 := 0
  deriving DecidableEq, Repr

namespace KeyMaterial

/-- The byte of the key at a position of the text. -/
def streamByte (key : KeyMaterial) (i : Nat) : UInt8 :=
  key.bytes.getD ((i + key.keyId.toNat) % key.bytes.length) 0

/-- The loop over the text, which sealing and opening share. -/
def applyStream (key : KeyMaterial) (text : Bytes) : Bytes :=
  text.mapIdx fun i byte => byte ^^^ key.streamByte i

end KeyMaterial

namespace EnvelopeCipher

/-- The bytes of a tag, the lowest first. -/
def tagBytes (tag : UInt32) : Bytes :=
  (List.range 4).map fun i => ((tag >>> UInt32.ofNat (8 * i)) &&& 0xff).toUInt8

/-- The loop that assembles the tag of a message. -/
def tagOf (message : Bytes) : UInt32 :=
  (List.range 4).foldl
    (fun tag i => tag ||| ((message.getD i 0).toUInt32 <<< UInt32.ofNat (8 * i))) 0

/-- `EnvelopeCipher::seal`. -/
def sealMessage (plain : Bytes) (key : KeyMaterial) : Except Error Bytes :=
  if key.bytes.isEmpty then .error ⟨.invalidArgument, "missing key material"⟩
  else .ok (tagBytes (crc32c key.bytes ^^^ crc32c plain) ++ key.applyStream plain)

/-- `EnvelopeCipher::open`. -/
def openMessage (message : Bytes) (key : KeyMaterial) : Except Error Bytes :=
  if message.length < 4 || key.bytes.isEmpty then .error ⟨.malformedPacket, "bad envelope"⟩
  else
    let plain := key.applyStream (message.drop 4)
    if tagOf message ≠ crc32c key.bytes ^^^ crc32c plain then
      .error ⟨.checksumMismatch, "envelope tag mismatch"⟩
    else .ok plain

end EnvelopeCipher

/-! ## The key stream -/

namespace KeyMaterial

theorem getElem?_apply_stream (key : KeyMaterial) (text : Bytes) (i : Nat) :
    (key.applyStream text)[i]? = text[i]?.map (· ^^^ key.streamByte i) :=
  List.getElem?_mapIdx

@[simp] theorem length_apply_stream (key : KeyMaterial) (text : Bytes) :
    (key.applyStream text).length = text.length :=
  List.length_mapIdx

/-- Applied twice the stream cancels, whatever the key. -/
@[simp] theorem apply_stream_twice (key : KeyMaterial) (text : Bytes) :
    key.applyStream (key.applyStream text) = text := by
  apply List.ext_getElem?
  intro i
  rw [getElem?_apply_stream, getElem?_apply_stream, Option.map_map]
  have hcancel : (· ^^^ key.streamByte i) ∘ (· ^^^ key.streamByte i) = id := by
    funext byte
    show byte ^^^ key.streamByte i ^^^ key.streamByte i = byte
    rw [UInt8.xor_assoc, UInt8.xor_self, UInt8.xor_zero]
  rw [hcancel, Option.map_id, id]

/-- Damage to the sealed text is damage to the plain text at the same places. -/
theorem apply_stream_differs {start : Nat} {text damaged : Bytes} (key : KeyMaterial)
    (h : DiffersWithin start text damaged) :
    DiffersWithin start (key.applyStream text) (key.applyStream damaged) := by
  refine ⟨by simpa using h.1, fun i hi => ?_⟩
  rw [getElem?_apply_stream, getElem?_apply_stream, h.2 i hi]

end KeyMaterial

/-! ## The tag -/

namespace EnvelopeCipher

theorem tag_bytes_eq (tag : UInt32) : tagBytes tag = digits 4 tag.toNat := by
  have hbuffer := BinaryWriter.buffer_u32 {} tag
  rw [BinaryWriter.u32, BinaryWriter.buffer_foldl_u8] at hbuffer
  exact hbuffer

theorem tag_of_cons (b0 b1 b2 b3 : UInt8) (text : Bytes) :
    tagOf (b0 :: b1 :: b2 :: b3 :: text) = BinaryReader.word32 b0 b1 b2 b3 := by
  show (0 : UInt32) ||| b0.toUInt32 <<< 0 ||| b1.toUInt32 <<< 8 ||| b2.toUInt32 <<< 16 |||
    b3.toUInt32 <<< 24 = _
  rw [UInt32.zero_or, UInt32.shiftLeft_zero]
  rfl

theorem digits_word_injective {word word' : UInt32}
    (h : digits 4 word.toNat = digits 4 word'.toNat) : word = word' := by
  have hvalue := congrArg value h
  rw [value_digits word.toNat_lt, value_digits word'.toNat_lt] at hvalue
  exact UInt32.toNat_inj.mp hvalue

/-- The first four bytes of a message are those of its tag. -/
theorem digits_tag_of (message : Bytes) (h : 4 ≤ message.length) :
    digits 4 (tagOf message).toNat = message.take 4 := by
  match message, h with
  | b0 :: b1 :: b2 :: b3 :: text, _ =>
    rw [tag_of_cons, BinaryReader.word32_toNat]
    exact digits_value [b0, b1, b2, b3]

/-! ## Sealing and opening -/

variable {key : KeyMaterial} {plain message : Bytes}

/-- Sealing puts a tag in front of the changed text, and needs a key. -/
theorem seal_ok_iff : sealMessage plain key = .ok message ↔ key.bytes ≠ [] ∧
    message = digits 4 (crc32c key.bytes ^^^ crc32c plain).toNat ++ key.applyStream plain := by
  rw [sealMessage, tag_bytes_eq]
  by_cases hkey : key.bytes.isEmpty = true
  · rw [if_pos hkey]
    simp [List.isEmpty_iff.mp hkey]
  · rw [if_neg hkey, Except.ok.injEq]
    rw [List.isEmpty_iff] at hkey
    exact ⟨fun h => ⟨hkey, h.symm⟩, fun h => h.2.symm⟩

/-- What is opened was sealed with the key. -/
theorem open_ok_iff :
    openMessage message key = .ok plain ↔ sealMessage plain key = .ok message := by
  rw [seal_ok_iff]
  constructor
  · intro h
    unfold openMessage at h
    split at h
    · cases h
    · next hgood =>
      simp only [Bool.or_eq_true, decide_eq_true_iff, List.isEmpty_iff, not_or, not_lt] at hgood
      obtain ⟨hlength, hkey⟩ := hgood
      dsimp only at h
      split at h
      · cases h
      · next htag =>
        cases h
        rw [← not_not.mp htag, digits_tag_of message hlength, KeyMaterial.apply_stream_twice,
          List.take_append_drop]
        exact ⟨hkey, rfl⟩
  · rintro ⟨hkey, rfl⟩
    let tag := crc32c key.bytes ^^^ crc32c plain
    have hdigits : (digits 4 tag.toNat).length = 4 := length_digits 4 _
    have hdrop : (digits 4 tag.toNat ++ key.applyStream plain).drop 4 = key.applyStream plain :=
      List.drop_left' hdigits
    have htag : tagOf (digits 4 tag.toNat ++ key.applyStream plain) = tag := by
      have hread := digits_tag_of (digits 4 tag.toNat ++ key.applyStream plain) (by simp)
      rw [List.take_left' hdigits] at hread
      exact digits_word_injective hread
    rw [openMessage, if_neg (by simp [hkey])]
    dsimp only
    rw [hdrop, htag, KeyMaterial.apply_stream_twice, if_neg (not_not.mpr rfl)]

/-- Texts with one checksum do not differ in a window of four bytes only. -/
theorem crc32c_window_injective {start : Nat} {text damaged : Bytes}
    (hwindow : DiffersWithin start text damaged) (hcrc : crc32c text = crc32c damaged) :
    text = damaged := by
  obtain ⟨hfront, hbehind⟩ := hwindow.take_drop
  have hsplit := window_split start text
  have hsplit' := window_split start damaged
  rw [hfront, hbehind] at hsplit'
  let checksum := digits 4 (crc32c text).toNat
  have hcarried : text.take start ++ (text.drop start).take 4 ++
      (text.drop (start + 4) ++ checksum) = text ++ checksum := by
    rw [← List.append_assoc, hsplit]
  have hcarried' : text.take start ++ (damaged.drop start).take 4 ++
      (text.drop (start + 4) ++ checksum) = damaged ++ digits 4 (crc32c damaged).toNat := by
    rw [← List.append_assoc, hsplit', ← hcrc]
  have hsame := crc32c_detects_window hcarried hcarried' (by simp [hwindow.1])
    (List.length_take_le 4 _)
  rw [← hsplit, hsame, hsplit']

/-- Damage to the tag of a message, or to four bytes in a row of its text, is noticed. -/
theorem open_damaged {damaged : Bytes} {start : Nat} (h : openMessage message key = .ok plain)
    (hstart : start = 0 ∨ 4 ≤ start) (hwindow : DiffersWithin start message damaged)
    (hdiffers : damaged ≠ message) : ∃ failure, openMessage damaged key = .error failure := by
  cases hdamaged : openMessage damaged key with
  | error failure => exact ⟨failure, rfl⟩
  | ok plain' =>
    obtain ⟨-, rfl⟩ := seal_ok_iff.mp (open_ok_iff.mp h)
    obtain ⟨-, rfl⟩ := seal_ok_iff.mp (open_ok_iff.mp hdamaged)
    obtain ⟨hfront, hbehind⟩ := hwindow.take_drop
    have hdrop (tag : UInt32) (text : Bytes) : (digits 4 tag.toNat ++ text).drop 4 = text :=
      List.drop_left' (length_digits 4 _)
    have htake (tag : UInt32) (text : Bytes) :
        (digits 4 tag.toNat ++ text).take 4 = digits 4 tag.toNat :=
      List.take_left' (length_digits 4 _)
    rcases hstart with rfl | hstart
    · -- the same text with another tag
      rw [Nat.zero_add, hdrop, hdrop] at hbehind
      have hplain := congrArg key.applyStream hbehind
      rw [KeyMaterial.apply_stream_twice, KeyMaterial.apply_stream_twice] at hplain
      rw [hplain] at hdiffers
      exact absurd rfl hdiffers
    · -- the same tag with another text
      have htag := congrArg (List.take 4) hfront
      rw [List.take_take, List.take_take, Nat.min_eq_left hstart, htake, htake] at htag
      have hcrc : crc32c plain = crc32c plain' :=
        (UInt32.xor_right_inj _).mp (digits_word_injective htag.symm)
      have hcipher := hwindow.drop hstart
      rw [hdrop, hdrop] at hcipher
      have htext := key.apply_stream_differs hcipher
      rw [KeyMaterial.apply_stream_twice, KeyMaterial.apply_stream_twice] at htext
      rw [crc32c_window_injective htext hcrc] at hdiffers
      exact absurd rfl hdiffers

/-- Opening gives back what was sealed with the same key. A message that is opened is not opened
after damage inside its tag, or inside four consecutive bytes of its text. -/
theorem envelope_cipher (key : KeyMaterial) :
    (key.bytes ≠ [] → ∀ plain, ∃ message, sealMessage plain key = .ok message ∧
      openMessage message key = .ok plain) ∧
    ∀ message plain damaged start, openMessage message key = .ok plain →
      start = 0 ∨ 4 ≤ start → DiffersWithin start message damaged → damaged ≠ message →
      ∃ failure, openMessage damaged key = .error failure := by
  refine ⟨fun hkey plain => ?_, fun message plain damaged start => open_damaged⟩
  have hsealed : sealMessage plain key = .ok _ := seal_ok_iff.mpr ⟨hkey, rfl⟩
  exact ⟨_, hsealed, open_ok_iff.mpr hsealed⟩

end EnvelopeCipher

/-! ## The ciphers of the modes -/

/-- The implementations of `Cipher`. -/
inductive Cipher where
  | plain
  | envelope
  deriving DecidableEq, Repr

namespace Cipher

/-- The mode that selects a cipher. -/
def mode : Cipher → EncryptionMode
  | plain => .none
  | envelope => .envelope

/-- Seal a message with a cipher. -/
def sealMessage : Cipher → Bytes → KeyMaterial → Except Error Bytes
  | plain, input, _ => .ok input
  | envelope, input, key => EnvelopeCipher.sealMessage input key

/-- Open a message with a cipher. -/
def openMessage : Cipher → Bytes → KeyMaterial → Except Error Bytes
  | plain, input, _ => .ok input
  | envelope, input, key => EnvelopeCipher.openMessage input key

/-- Whatever the cipher, opening is the inverse of sealing where there is a key. -/
theorem open_seal (cipher : Cipher) {key : KeyMaterial} (hkey : key.bytes ≠ []) (plain : Bytes) :
    ∃ message, cipher.sealMessage plain key = .ok message ∧
      cipher.openMessage message key = .ok plain := by
  cases cipher with
  | plain => exact ⟨plain, rfl, rfl⟩
  | envelope =>
      have hsealed : EnvelopeCipher.sealMessage plain key = .ok _ :=
        EnvelopeCipher.seal_ok_iff.mpr ⟨hkey, rfl⟩
      exact ⟨_, hsealed, EnvelopeCipher.open_ok_iff.mpr hsealed⟩

end Cipher

/-- The cipher of a mode, if the mode is known. -/
def makeCipher (mode : EncryptionMode) : Except Error Cipher :=
  if mode = .none then .ok .plain
  else if mode = .envelope then .ok .envelope
  else .error ⟨.invalidArgument, "unsupported encryption mode"⟩

/-- There is a cipher for plain text and one for the envelope, and no other. -/
theorem make_cipher_ok_iff {mode : EncryptionMode} :
    (∃ cipher, makeCipher mode = .ok cipher) ↔ mode = .none ∨ mode = .envelope := by
  unfold makeCipher
  constructor
  · rintro ⟨cipher, hmake⟩
    split_ifs at hmake with hnone henvelope
    · exact .inl hnone
    · exact .inr henvelope
  · rintro (rfl | rfl)
    · exact ⟨.plain, rfl⟩
    · exact ⟨.envelope, rfl⟩

end Aethon.Crypto
