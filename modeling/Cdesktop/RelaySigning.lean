import Cdesktop.Bytes
import Cdesktop.Fields
import Mathlib.Algebra.Ring.Nat

namespace Cdesktop.RelaySigning
open Fields (join Free)
set_option autoImplicit true

abbrev Uuid := BitVec 128

/-- The last `count` digits, the first one first. -/
def hexDigits : Nat → Nat → List Char
  | 0, _ => []
  | count + 1, n => hexDigits count (n / 16) ++ [Nat.digitChar (n % 16)]

def hyphenated (digits : List Char) : List Char :=
  digits.take 8 ++ '-' :: ((digits.drop 8).take 4 ++ '-' :: ((digits.drop 12).take 4 ++
    '-' :: ((digits.drop 16).take 4 ++ '-' :: digits.drop 20)))

def uuidToString (id : Uuid) : String := String.ofList (hyphenated (hexDigits 32 id.toNat))

abbrev VerifyingKey := List UInt8

abbrev Signature := List UInt8

/-- What is used of the crates for base64, for the hash and for the signatures. -/
structure Libraries where
  encode : List UInt8 → String
  decode : String → Option (List UInt8)
  sha256 : List UInt8 → List UInt8
  signatureFromSlice : List UInt8 → Option Signature
  /-- What the owner of the key makes of the bytes. -/
  sign : VerifyingKey → List UInt8 → Signature
  verify : VerifyingKey → List UInt8 → Signature → Bool

/-- What the code relies on: base64 is read back and is without a bar, and what is signed with a key
is a signature that the key verifies. -/
structure Libraries.Lawful (lib : Libraries) : Prop where
  decode_encode : ∀ bytes, lib.decode (lib.encode bytes) = some bytes
  encode_free : ∀ bytes, Free '|' (lib.encode bytes)
  fromSlice_sign : ∀ key message,
    lib.signatureFromSlice (lib.sign key message) = some (lib.sign key message)
  verify_sign : ∀ key message, lib.verify key message (lib.sign key message) = true

structure RequestSignature where
  signingSessionId : Uuid
  timestamp : Int
  nonce : Uuid
  signatureB64 : String

def buildRequestSigningMessage (lib : Libraries) (sig : RequestSignature)
    (method pathAndQuery : String) (body : List UInt8) : String :=
  join '|' ["v1", sig.timestamp.repr, method, pathAndQuery, uuidToString sig.signingSessionId,
    uuidToString sig.nonce, lib.encode (lib.sha256 body)]

def buildResponseSigningMessage (lib : Libraries) (timestamp : Int) (status : Nat)
    (pathAndQuery : String) (signingSessionId requestNonce responseNonce : Uuid)
    (body : List UInt8) : String :=
  join '|' ["v1", timestamp.repr, status.repr, pathAndQuery, uuidToString signingSessionId,
    uuidToString requestNonce, uuidToString responseNonce, lib.encode (lib.sha256 body)]

def buildRefreshMessage (timestamp : Int) (nonce : String) (clientId : Uuid) : String :=
  join '|' ["v1", "refresh", timestamp.repr, nonce, uuidToString clientId]

theorem hexDigits_length (count n : Nat) : (hexDigits count n).length = count := by
  induction count generalizing n with
  | zero => rfl
  | succ count ih => rw [hexDigits, List.length_append, ih, List.length_singleton]

theorem digitChar_of_mem_hexDigits (h : c ∈ hexDigits count n) :
    ∃ d < 16, c = Nat.digitChar d := by
  induction count generalizing n with
  | zero => cases h
  | succ count ih =>
    rw [hexDigits, List.mem_append, List.mem_singleton] at h
    rcases h with hmem | heq
    · exact ih hmem
    · exact ⟨n % 16, Nat.mod_lt _ (by decide), heq⟩

theorem digitChar_inj : ∀ d < 16, ∀ d' < 16, Nat.digitChar d = Nat.digitChar d' → d = d' := by
  decide

theorem digitChar_ne : ∀ d < 16, Nat.digitChar d ≠ '-' ∧ Nat.digitChar d ≠ '|' := by
  decide

theorem hexDigits_inj (hn : n < 16 ^ count) (hn' : n' < 16 ^ count)
    (h : hexDigits count n = hexDigits count n') : n = n' := by
  induction count generalizing n n' with
  | zero =>
    rw [Nat.pow_zero, Nat.lt_one_iff] at hn hn'
    rw [hn, hn']
  | succ count ih =>
    rw [hexDigits, hexDigits] at h
    obtain ⟨hfirst, hlast⟩ := List.append_inj' h rfl
    rw [Nat.pow_succ] at hn hn'
    have hdiv := ih (Nat.div_lt_of_lt_mul (by omega)) (Nat.div_lt_of_lt_mul (by omega)) hfirst
    have hmod := digitChar_inj _ (Nat.mod_lt n (by decide)) _ (Nat.mod_lt n' (by decide))
      (List.singleton_inj.mp hlast)
    omega

theorem filter_hyphenated (h : '-' ∉ digits) :
    (hyphenated digits).filter (· ≠ '-') = digits := by
  have hall : ∀ l : List Char, l.Sublist digits → l.filter (· ≠ '-') = l := by
    intro l hl
    apply List.filter_eq_self.mpr
    intro c hc
    have hne : c ≠ '-' := fun heq => h (hl.subset (heq ▸ hc))
    simpa using hne
  have hdrop : ∀ k, (digits.drop k).take 4 ++ digits.drop (k + 4) = digits.drop k := by
    intro k
    rw [← List.drop_drop, List.take_append_drop]
  have hsub : ∀ k, (digits.drop k |>.take 4).Sublist digits := fun k =>
    (List.take_sublist ..).trans (List.drop_sublist ..)
  rw [hyphenated, List.filter_append, List.filter_cons_of_neg (by decide), List.filter_append,
    List.filter_cons_of_neg (by decide), List.filter_append, List.filter_cons_of_neg (by decide),
    List.filter_append, List.filter_cons_of_neg (by decide), hall _ (List.take_sublist ..),
    hall _ (hsub 8), hall _ (hsub 12), hall _ (hsub 16), hall _ (List.drop_sublist ..), hdrop 16,
    hdrop 12, hdrop 8, List.take_append_drop]

theorem hyphen_not_mem_hexDigits (count n : Nat) : '-' ∉ hexDigits count n := by
  intro hmem
  obtain ⟨d, hd, heq⟩ := digitChar_of_mem_hexDigits hmem
  exact (digitChar_ne d hd).1 heq.symm

theorem uuidToString_inj {id id' : Uuid} (h : uuidToString id = uuidToString id') : id = id' := by
  have hlist := String.ofList_inj.mp h
  have hdigits := congrArg (List.filter (· ≠ '-')) hlist
  rw [filter_hyphenated (hyphen_not_mem_hexDigits _ _),
    filter_hyphenated (hyphen_not_mem_hexDigits _ _)] at hdigits
  have hpow : (16 : Nat) ^ 32 = 2 ^ 128 := by decide
  apply BitVec.eq_of_toNat_eq
  apply hexDigits_inj _ _ hdigits
  · rw [hpow]
    exact id.isLt
  · rw [hpow]
    exact id'.isLt

theorem uuidToString_free (id : Uuid) : Free '|' (uuidToString id) := by
  intro hmem
  rw [uuidToString, String.toList_ofList] at hmem
  have hmem' : '|' ∈ (hyphenated (hexDigits 32 id.toNat)).filter (· ≠ '-') :=
    List.mem_filter.mpr ⟨hmem, by decide⟩
  rw [filter_hyphenated (hyphen_not_mem_hexDigits _ _)] at hmem'
  obtain ⟨d, hd, heq⟩ := digitChar_of_mem_hexDigits hmem'
  exact (digitChar_ne d hd).2 heq.symm

theorem uuidToString_hyphen (id : Uuid) : (uuidToString id).toList[8]? = some '-' := by
  have hlength : ((hexDigits 32 id.toNat).take 8).length = 8 := by
    rw [List.length_take, hexDigits_length]
    rfl
  rw [uuidToString, String.toList_ofList, hyphenated, List.getElem?_append_right (by omega), hlength]
  rfl

theorem uuidToString_ne_repr (id : Uuid) (n : Int) : uuidToString id ≠ n.repr := by
  intro heq
  have hhyphen := uuidToString_hyphen id
  rw [heq] at hhyphen
  exact Fields.intRepr_getElem_ne n hhyphen

theorem uuidToString_ne_refresh (id : Uuid) : uuidToString id ≠ "refresh" := by
  intro heq
  have hhyphen := uuidToString_hyphen id
  rw [heq] at hhyphen
  exact absurd hhyphen (by decide)

end Cdesktop.RelaySigning
