import HelloBoot.Java.Des
import HelloBoot.Wire.Base64

/-!
# `EnCoderCipherUtil`

`encrypt` enciphers the octets of a text with DES in blocks of their own, filled up at the end, and
writes them in Base64; `decrypt` goes back. What goes wrong is caught, and `null` returned. Of the
key the first eight octets are used, and of these the first seven bits.
-/

namespace HelloBoot.EnCoderCipherUtil

open BlockCipher Wire

/-- The default charset of the platform, which contains ASCII: `getBytes()` and `new String(bytes)`
without a charset use it. -/
structure Charset where
  getBytes : String → List UInt8
  newString : List UInt8 → String
  getBytes_empty : getBytes "" = []
  newString_ascii : ∀ cs : List Char, (∀ c ∈ cs, c.toNat < 128) →
    newString (cs.map fun c => UInt8.ofNat c.toNat) = String.ofList cs

/-- `encrypt(originalContent, key)` on octets; `none` is the exception for a short key. -/
def encryptBytes (originalContent key : List UInt8) : Option (List UInt8) :=
  if key.length < 8 then none
  else some (ecb 8 (Des.encryptBlock (key.take 8)) (pad 8 originalContent))

/-- `decrypt(ciphertextByte, key)` on octets; `none` is the exception for a short key, for a length
that is no multiple of eight, or for a padding that is none. -/
def decryptBytes (ciphertextByte key : List UInt8) : Option (List UInt8) :=
  if key.length < 8 then none
  else if ciphertextByte.length % 8 = 0 then
    unpad 8 (ecb 8 (Des.decryptBlock (key.take 8)) ciphertextByte)
  else none

def base64Bytes (b : List UInt8) : List UInt8 := (toBase64 b).map fun c => UInt8.ofNat c.toNat

def isEmpty (s : Option String) : Bool := s.getD "" = ""

def encrypt (charset : Charset) (originalContent key : Option String) : Option String :=
  if isEmpty originalContent || isEmpty key then none
  else do
    let byteContent ← encryptBytes (charset.getBytes (originalContent.getD ""))
      (charset.getBytes (key.getD ""))
    some (charset.newString (base64Bytes byteContent))

def decrypt (charset : Charset) (ciphertext key : Option String) : Option String :=
  if isEmpty ciphertext || isEmpty key then none
  else do
    let bufCiphertext ← ofBase64 (ciphertext.getD "").toList
    let contentByte ← decryptBytes bufCiphertext (charset.getBytes (key.getD ""))
    some (charset.newString contentByte)

variable {charset : Charset}

def Usable (charset : Charset) (key : String) : Prop := 8 ≤ (charset.getBytes key).length

instance (key : String) : Decidable (Usable charset key) := inferInstanceAs (Decidable (_ ≤ _))

theorem Usable.ne_empty {key : String} (h : Usable charset key) : key ≠ "" := by
  rintro rfl
  rw [Usable, charset.getBytes_empty] at h
  exact absurd h (by decide)

theorem isEmpty_some {s : String} : isEmpty (some s) = true ↔ s = "" := decide_eq_true_iff

theorem isEmpty_or_eq_false {s t : String} (hs : s ≠ "") (ht : t ≠ "") :
    (isEmpty (some s) || isEmpty (some t)) = false := by
  rw [Bool.or_eq_false_iff, ← Bool.not_eq_true, ← Bool.not_eq_true, isEmpty_some, isEmpty_some]
  exact ⟨hs, ht⟩

/-! ### Going back -/

theorem newString_base64Bytes (b : List UInt8) :
    charset.newString (base64Bytes b) = String.ofList (toBase64 b) :=
  charset.newString_ascii _ fun _ hc => toNat_lt_of_mem_toBase64 hc

/-- The blocks of a ciphertext may be cut off and put together at will. -/
theorem decryptBytes_append {a b key : List UInt8} (ha : 8 ∣ a.length) (hkey : 8 ≤ key.length) :
    decryptBytes (ecb 8 (Des.encryptBlock (key.take 8)) a ++
      ecb 8 (Des.encryptBlock (key.take 8)) (pad 8 b)) key = some (a ++ b) := by
  have hdvd : 8 ∣ (pad 8 (a ++ b)).length := dvd_length_pad (by decide) _
  rw [← ecb_append (by decide) ha, ← pad_append ha, decryptBytes, if_neg (by omega),
    if_pos (Nat.mod_eq_zero_of_dvd ?_), ecb_ecb (by decide) ?_ ?_ hdvd,
    unpad_pad (by decide) (by decide)]
  · exact fun b _ => Des.length_encryptBlock _ b
  · exact fun b hb => Des.decryptBlock_encryptBlock _ hb
  · rwa [length_ecb (by decide) (fun b _ => Des.length_encryptBlock _ b) hdvd]

theorem encryptBytes_of_le {originalContent key : List UInt8} (h : 8 ≤ key.length) :
    encryptBytes originalContent key =
      some (ecb 8 (Des.encryptBlock (key.take 8)) (pad 8 originalContent)) :=
  if_neg (by omega)

theorem decrypt_ofList {b : List UInt8} {key : String} (hb : b ≠ []) (hkey : Usable charset key) :
    decrypt charset (some (String.ofList (toBase64 b))) (some key) =
      (decryptBytes b (charset.getBytes key)).map charset.newString := by
  have hne : String.ofList (toBase64 b) ≠ "" := by
    intro h
    have hlist := congrArg String.toList h
    rw [String.toList_ofList] at hlist
    exact hb (toBase64_eq_nil_iff.mp hlist)
  unfold decrypt
  rw [isEmpty_or_eq_false hne hkey.ne_empty, if_neg Bool.false_ne_true, Option.getD_some,
    Option.getD_some, String.toList_ofList, ofBase64_toBase64]
  exact Option.map_eq_bind.symm

theorem encrypt_of_usable {s key : String} (hs : s ≠ "") (hkey : Usable charset key) :
    encrypt charset (some s) (some key) = some (String.ofList (toBase64
      (ecb 8 (Des.encryptBlock ((charset.getBytes key).take 8)) (pad 8 (charset.getBytes s))))) := by
  unfold encrypt
  rw [isEmpty_or_eq_false hs hkey.ne_empty, if_neg Bool.false_ne_true, Option.getD_some,
    Option.getD_some, encryptBytes_of_le hkey, ← newString_base64Bytes]
  rfl

theorem length_ciphertext (content key : List UInt8) :
    (ecb 8 (Des.encryptBlock key) (pad 8 content)).length = 8 * (content.length / 8 + 1) := by
  rw [length_ecb (by decide) (fun b _ => Des.length_encryptBlock _ b)
    (dvd_length_pad (by decide) _), length_pad (by decide)]

theorem ciphertext_ne_nil (content key : List UInt8) :
    ecb 8 (Des.encryptBlock key) (pad 8 content) ≠ [] := by
  intro h
  have hlength := length_ciphertext content key
  rw [h, List.length_nil] at hlength
  omega

def usAscii : Charset where
  getBytes s := s.toList.map fun c => if c.toNat < 128 then UInt8.ofNat c.toNat else 63
  newString b := String.ofList (b.map fun u => if u < 128 then Char.ofNat u.toNat else '\uFFFD')
  getBytes_empty := rfl
  newString_ascii cs hcs := by
    have hmap : (cs.map fun c => UInt8.ofNat c.toNat).map
        (fun u => if u < 128 then Char.ofNat u.toNat else '\uFFFD') = cs := by
      rw [List.map_map]
      refine (List.map_congr_left fun c hc => ?_).trans (List.map_id cs)
      have htoNat : (UInt8.ofNat c.toNat).toNat = c.toNat :=
        Nat.mod_eq_of_lt (Nat.lt_trans (hcs c hc) (by decide))
      have hlt : UInt8.ofNat c.toNat < 128 := by
        rw [UInt8.lt_iff_toNat_lt, htoNat]
        exact hcs c hc
      rw [Function.comp_apply, if_pos hlt, htoNat, Char.ofNat_toNat, id_eq]
    rw [hmap]

theorem encrypt_eq_none_iff {content key : Option String} :
    encrypt charset content key = none ↔
      ¬((∃ s ∈ content, s ≠ "") ∧ ∃ k ∈ key, Usable charset k) := by
  constructor
  · rintro h ⟨⟨s, hs, hne⟩, k, hk, hkey⟩
    cases hs
    cases hk
    rw [encrypt_of_usable hne hkey] at h
    cases h
  · intro h
    unfold encrypt
    by_cases hempty : (isEmpty content || isEmpty key) = true
    · rw [if_pos hempty]
    · rw [if_neg hempty]
      cases content with
      | none => exact absurd rfl hempty
      | some s =>
          cases key with
          | none => exact absurd (Bool.or_true _) hempty
          | some k =>
              have hs : s ≠ "" := fun hs => hempty (by rw [isEmpty_some.mpr hs, Bool.true_or])
              have hk : ¬Usable charset k := fun hk => h ⟨⟨s, rfl, hs⟩, k, rfl, hk⟩
              rw [Option.getD_some, Option.getD_some, encryptBytes, if_pos (Nat.lt_of_not_le hk)]
              rfl

/-- `encrypt` returns `null` for a content or a key that is missing or empty, and for a key of less
than eight octets, and otherwise never. What it has encrypted is decrypted with the same key to the
text that the charset makes of the octets of the content, so to the content, if the charset has all
its characters. The ciphertext has four letters for every three octets, in blocks of eight. -/
theorem decrypt_encrypt (charset : Charset) (content key : Option String) :
    (encrypt charset content key = none ↔
      ¬((∃ s ∈ content, s ≠ "") ∧ ∃ k ∈ key, Usable charset k)) ∧
    ∀ c ∈ encrypt charset content key, ∃ s ∈ content,
      c.length = (8 * ((charset.getBytes s).length / 8 + 1) + 2) / 3 * 4 ∧
      decrypt charset (some c) key = some (charset.newString (charset.getBytes s)) := by
  refine ⟨encrypt_eq_none_iff, fun c hc => ?_⟩
  obtain ⟨⟨s, hs, hne⟩, k, hk, hkey⟩ : (∃ s ∈ content, s ≠ "") ∧ ∃ k ∈ key, Usable charset k := by
    by_contra hnot
    rw [encrypt_eq_none_iff.mpr hnot] at hc
    cases hc
  cases hs
  cases hk
  rw [encrypt_of_usable hne hkey] at hc
  cases hc
  refine ⟨s, rfl, ?_, ?_⟩
  · rw [String.length_ofList, length_toBase64, length_ciphertext]
  · have hbytes : decryptBytes (ecb 8 (Des.encryptBlock ((charset.getBytes k).take 8))
        (pad 8 (charset.getBytes s))) (charset.getBytes k) = some (charset.getBytes s) :=
      decryptBytes_append (a := []) (Nat.dvd_zero 8) hkey
    rw [decrypt_ofList (ciphertext_ne_nil _ _) hkey, hbytes]
    rfl

theorem decrypt_encrypt_password :
    ∃ c, encrypt usAscii (some "123456") (some "password") = some c ∧
      decrypt usAscii (some c) (some "password") = some "123456" := by
  obtain ⟨hnone, hsome⟩ := decrypt_encrypt usAscii (some "123456") (some "password")
  cases hc : encrypt usAscii (some "123456") (some "password") with
  | none => exact absurd ⟨⟨_, rfl, by decide⟩, _, rfl, by decide⟩ (hnone.mp hc)
  | some c =>
      obtain ⟨s, hs, -, hdecrypt⟩ := hsome c hc
      cases hs
      exact ⟨c, rfl, hdecrypt⟩

theorem usable_of_encrypt {s key c : String} (h : encrypt charset (some s) (some key) = some c) :
    s ≠ "" ∧ Usable charset key := by
  by_contra hnot
  have hnone : encrypt charset (some s) (some key) = none := by
    rw [encrypt_eq_none_iff]
    rintro ⟨⟨s, hs, hne⟩, k, hk, hkey⟩
    cases hs
    cases hk
    exact hnot ⟨hne, hkey⟩
  rw [hnone] at h
  cases h

/-- With two keys whose first eight octets differ in their last bits only, if at all, the same is
encrypted and decrypted to the same. -/
theorem encrypt_congr_key {key key' : String} (hkey : Usable charset key)
    (hkey' : Usable charset key')
    (h : ((charset.getBytes key).take 8).map (fun u => u.toNat / 2) =
      ((charset.getBytes key').take 8).map fun u => u.toNat / 2) (text : Option String) :
    encrypt charset text (some key) = encrypt charset text (some key') ∧
      decrypt charset text (some key) = decrypt charset text (some key') := by
  have hempty : isEmpty (some key) = isEmpty (some key') := by
    rw [Bool.eq_iff_iff, isEmpty_some, isEmpty_some]
    exact iff_of_false hkey.ne_empty hkey'.ne_empty
  have hencrypt (b : List UInt8) :
      encryptBytes b (charset.getBytes key) = encryptBytes b (charset.getBytes key') := by
    rw [encryptBytes_of_le hkey, encryptBytes_of_le hkey', Des.encryptBlock_congr h]
  have hdecrypt (b : List UInt8) :
      decryptBytes b (charset.getBytes key) = decryptBytes b (charset.getBytes key') := by
    rw [decryptBytes, decryptBytes, if_neg (Nat.not_lt.mpr hkey), if_neg (Nat.not_lt.mpr hkey'),
      Des.decryptBlock_congr h]
  constructor
  · simp only [encrypt, hempty, Option.getD_some, hencrypt]
  · simp only [decrypt, hempty, Option.getD_some, hdecrypt]

theorem encrypt_congr_key_password :
    encrypt usAscii (some "123456") (some "password") =
        encrypt usAscii (some "123456") (some "qasswoseX") ∧
      decrypt usAscii (some "123456") (some "password") =
        decrypt usAscii (some "123456") (some "qasswoseX") :=
  encrypt_congr_key (by decide) (by decide) (by decide) (some "123456")

/-- Nothing of a ciphertext is authenticated: its blocks without the last one, and those of another
ciphertext after them, are decrypted to the one content and the other after it, if the one has its
octets in whole blocks. -/
theorem decrypt_spliced {s t key c d : String} {b e : List UInt8}
    (hblocks : 8 ∣ (charset.getBytes s).length)
    (hc : encrypt charset (some s) (some key) = some c) (hb : ofBase64 c.toList = some b)
    (hd : encrypt charset (some t) (some key) = some d) (he : ofBase64 d.toList = some e) :
    decrypt charset (some (String.ofList (toBase64 (b.take (b.length - 8) ++ e)))) (some key) =
      some (charset.newString (charset.getBytes s ++ charset.getBytes t)) := by
  obtain ⟨hs, hkey⟩ := usable_of_encrypt hc
  obtain ⟨ht, -⟩ := usable_of_encrypt hd
  obtain ⟨f, hf⟩ : ∃ f, Des.encryptBlock ((charset.getBytes key).take 8) = f := ⟨_, rfl⟩
  have hlength (b : List UInt8) : (f b).length = 8 := by
    rw [← hf]
    exact Des.length_encryptBlock _ b
  rw [encrypt_of_usable hs hkey, hf, Option.some_inj] at hc
  rw [encrypt_of_usable ht hkey, hf, Option.some_inj] at hd
  subst hc hd
  rw [String.toList_ofList, ofBase64_toBase64, Option.some_inj] at hb he
  have hpad : pad 8 (charset.getBytes s) = charset.getBytes s ++ pad 8 [] := by
    rw [← pad_append hblocks, List.append_nil]
  have hlast : (ecb 8 f (pad 8 [])).length = 8 := by
    rw [← hf]
    exact length_ciphertext [] _
  have htake : b.take (b.length - 8) = ecb 8 f (charset.getBytes s) := by
    rw [← hb, hpad, ecb_append (by decide) hblocks]
    exact List.take_left' (by rw [List.length_append, hlast, Nat.add_sub_cancel])
  have hne : e ≠ [] := by
    rw [← he, ← hf]
    exact ciphertext_ne_nil _ _
  rw [decrypt_ofList (List.append_ne_nil_of_right_ne_nil _ hne) hkey, htake, ← he, ← hf,
    decryptBytes_append hblocks hkey]
  rfl

theorem decrypt_spliced_password :
    ∃ c, decrypt usAscii (some c) (some "password") = some "123456789" := by
  have hread (b : List UInt8) : ofBase64 (String.ofList (toBase64 b)).toList = some b := by
    rw [String.toList_ofList, ofBase64_toBase64]
  exact ⟨_, decrypt_spliced (s := "12345678") (t := "9") (by decide)
    (encrypt_of_usable (by decide) (by decide)) (hread _)
    (encrypt_of_usable (by decide) (by decide)) (hread _)⟩

end HelloBoot.EnCoderCipherUtil
