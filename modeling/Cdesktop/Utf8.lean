import Mathlib.Data.List.Forall2

/-! The bytes of a text in UTF-8, and what a reader that gets them in parts can say of a beginning. -/

namespace Utf8
set_option autoImplicit true

/-- How bytes begin: with a character and the number of its bytes behind the first, with the
beginning of one, or with bytes that no text continues. -/
inductive Head where
  | char (more : Nat)
  | cut
  | invalid (length : Nat)

/-- The bounds of the bytes that follow a first byte. -/
def lead (first : Nat) : Option (List (Nat × Nat)) :=
  if first ≤ 0x7F then some []
  else if first < 0xC2 then none
  else if first ≤ 0xDF then some [(0x80, 0xBF)]
  else if first ≤ 0xEF then
    some [(if first = 0xE0 then 0xA0 else 0x80, if first = 0xED then 0x9F else 0xBF), (0x80, 0xBF)]
  else if first ≤ 0xF4 then
    some [(if first = 0xF0 then 0x90 else 0x80, if first = 0xF4 then 0x8F else 0xBF), (0x80, 0xBF),
      (0x80, 0xBF)]
  else none

def follow (seen : Nat) : List (Nat × Nat) → List UInt8 → Head
  | [], _ => .char (seen - 1)
  | _ :: _, [] => .cut
  | (lo, hi) :: bounds, byte :: bytes =>
    if lo ≤ byte.toNat ∧ byte.toNat ≤ hi then follow (seen + 1) bounds bytes else .invalid seen

def head (first : UInt8) (rest : List UInt8) : Head :=
  match lead first.toNat with
  | none => .invalid 1
  | some bounds => follow 1 bounds rest

structure Utf8Error where
  validUpTo : Nat
  errorLen : Option Nat

def Utf8Error.shift (error : Utf8Error) (seen : Nat) : Utf8Error :=
  { error with validUpTo := seen + error.validUpTo }

def fromUtf8 : List UInt8 → Option Utf8Error
  | [] => none
  | first :: rest =>
    match head first rest with
    | .char more => (fromUtf8 (rest.drop more)).map (·.shift (more + 1))
    | .cut => some ⟨0, none⟩
    | .invalid length => some ⟨0, some length⟩
termination_by bytes => bytes.length
decreasing_by
  rw [List.length_drop, List.length_cons]
  omega

def encode (chars : List Char) : List UInt8 := chars.flatMap String.utf8EncodeChar

def Stuck : List UInt8 → Prop
  | [] => True
  | first :: rest => ∀ more, head first rest ≠ .char more

@[simp] theorem encode_nil : encode [] = [] := rfl

@[simp] theorem encode_cons (c : Char) (chars : List Char) :
    encode (c :: chars) = String.utf8EncodeChar c ++ encode chars := rfl

theorem encode_append (chars chars' : List Char) :
    encode (chars ++ chars') = encode chars ++ encode chars' := List.flatMap_append

theorem follow_append (h : follow seen bounds bytes ≠ .cut) (later : List UInt8) :
    follow seen bounds (bytes ++ later) = follow seen bounds bytes := by
  induction bounds generalizing seen bytes with
  | nil => rw [follow, follow]
  | cons bound bounds ih =>
    cases bytes with
    | nil => exact absurd rfl h
    | cons byte bytes =>
      rw [follow] at h
      rw [List.cons_append, follow, follow]
      split at h
      · next hbound => rw [if_pos hbound, if_pos hbound, ih h]
      · next hbound => rw [if_neg hbound, if_neg hbound]

/-- What the bytes say of their beginning is not changed by later ones, unless they end too early
to say it. -/
theorem head_append (h : head first rest ≠ .cut) (later : List UInt8) :
    head first (rest ++ later) = head first rest := by
  unfold head at *
  split
  · rfl
  · next bounds hlead =>
    rw [hlead] at h
    exact follow_append h later

theorem follow_cut (h : follow seen bounds bytes = .cut) : bytes.length < bounds.length := by
  induction bounds generalizing seen bytes with
  | nil =>
    rw [follow] at h
    exact nomatch h
  | cons bound bounds ih =>
    cases bytes with
    | nil => exact Nat.zero_lt_succ _
    | cons byte bytes =>
      rw [follow] at h
      split at h
      · exact Nat.succ_lt_succ (ih h)
      · exact nomatch h

theorem lead_length (h : lead first = some bounds) : bounds.length ≤ 3 := by
  unfold lead at h
  split_ifs at h <;> cases h <;> decide

theorem head_cut (h : head first rest = .cut) : (first :: rest).length ≤ 3 := by
  unfold head at h
  split at h
  · exact nomatch h
  · next hlead =>
    have hbounds := follow_cut h
    have hthree := lead_length hlead
    rw [List.length_cons]
    omega

theorem toNat_byte (h : n < 256) : (UInt8.ofNat n).toNat = n := UInt8.toNat_ofNat_of_lt' h

theorem follow_tail (hlo : 0x80 ≤ n) (hhi : n ≤ 0xBF) (bounds : List (Nat × Nat))
    (bytes : List UInt8) :
    follow seen ((0x80, 0xBF) :: bounds) (.ofNat n :: bytes) = follow (seen + 1) bounds bytes := by
  rw [follow, toNat_byte (by omega), if_pos ⟨hlo, hhi⟩]

theorem lead_two (hlo : 0xC2 ≤ n) (hhi : n ≤ 0xDF) : lead n = some [(0x80, 0xBF)] := by
  unfold lead
  rw [if_neg (by omega), if_neg (by omega), if_pos hhi]

theorem lead_three (hlo : 0xE0 ≤ n) (hhi : n ≤ 0xEF) : lead n = some [(if n = 0xE0 then 0xA0
    else 0x80, if n = 0xED then 0x9F else 0xBF), (0x80, 0xBF)] := by
  unfold lead
  rw [if_neg (by omega), if_neg (by omega), if_neg (by omega), if_pos hhi]

theorem lead_four (hlo : 0xF0 ≤ n) (hhi : n ≤ 0xF4) : lead n = some [(if n = 0xF0 then 0x90
    else 0x80, if n = 0xF4 then 0x8F else 0xBF), (0x80, 0xBF), (0x80, 0xBF)] := by
  unfold lead
  rw [if_neg (by omega), if_neg (by omega), if_neg (by omega), if_neg (by omega), if_pos hhi]

theorem head_encodeChar (c : Char) : ∃ first rest, String.utf8EncodeChar c = first :: rest ∧
    head first rest = .char rest.length := by
  have hvalid := c.valid
  change c.val.toNat < 0xd800 ∨ 0xdfff < c.val.toNat ∧ c.val.toNat < 0x110000 at hvalid
  unfold String.utf8EncodeChar
  generalize c.val.toNat = v at hvalid
  dsimp only
  split_ifs with hone htwo hthree
  · have hlead : lead v = some [] := if_pos hone
    have hhead : head (.ofNat v) [] = .char 0 := by
      rw [head, toNat_byte (by omega), hlead]
      rfl
    exact ⟨_, _, rfl, hhead⟩
  · have hlead := lead_two (n := v / 64 % 0x20 + 0xc0) (by omega) (by omega)
    have hhead : head (.ofNat (v / 64 % 0x20 + 0xc0)) [.ofNat (v % 0x40 + 0x80)] = .char 1 := by
      rw [head, toNat_byte (by omega), hlead]
      dsimp only
      rw [follow_tail (by omega) (by omega)]
      rfl
    exact ⟨_, _, rfl, hhead⟩
  · have hlead := lead_three (n := v / 4096 % 0x10 + 0xe0) (by omega) (by omega)
    have hhead : head (.ofNat (v / 4096 % 0x10 + 0xe0)) [.ofNat (v / 64 % 0x40 + 0x80),
        .ofNat (v % 0x40 + 0x80)] = .char 2 := by
      rw [head, toNat_byte (by omega), hlead]
      dsimp only
      rw [follow, toNat_byte (by omega), if_pos (by split_ifs <;> omega),
        follow_tail (by omega) (by omega)]
      rfl
    exact ⟨_, _, rfl, hhead⟩
  · have hlead := lead_four (n := v / 262144 % 0x08 + 0xf0) (by omega) (by omega)
    have hhead : head (.ofNat (v / 262144 % 0x08 + 0xf0)) [.ofNat (v / 4096 % 0x40 + 0x80),
        .ofNat (v / 64 % 0x40 + 0x80), .ofNat (v % 0x40 + 0x80)] = .char 3 := by
      rw [head, toNat_byte (by omega), hlead]
      dsimp only
      rw [follow, toNat_byte (by omega), if_pos (by split_ifs <;> omega),
        follow_tail (by omega) (by omega), follow_tail (by omega) (by omega)]
      rfl
    exact ⟨_, _, rfl, hhead⟩

theorem follow_char (hseen : 0 < seen) (h : follow seen bounds bytes = .char more) :
    more + 1 = seen + bounds.length ∧ ∃ within later, bytes = within ++ later ∧
      List.Forall₂ (fun bound byte => bound.1 ≤ byte.toNat ∧ byte.toNat ≤ bound.2) bounds
        within := by
  induction bounds generalizing seen bytes with
  | nil =>
    rw [follow] at h
    cases h
    exact ⟨by rw [List.length_nil]; omega, [], bytes, rfl, .nil⟩
  | cons bound bounds ih =>
    cases bytes with
    | nil => exact nomatch h
    | cons byte bytes =>
      rw [follow] at h
      split at h
      · next hbound =>
        obtain ⟨hmore, within, later, heq, hwithin⟩ := ih (Nat.zero_lt_succ _) h
        rw [heq]
        exact ⟨by rw [List.length_cons]; omega, byte :: within, later, rfl, .cons hbound hwithin⟩
      · exact nomatch h

theorem lead_cases (h : lead n = some bounds) :
    n ≤ 0x7F ∧ bounds = [] ∨
    (0xC2 ≤ n ∧ n ≤ 0xDF) ∧ bounds = [(0x80, 0xBF)] ∨
    (0xE0 ≤ n ∧ n ≤ 0xEF) ∧ bounds = [(if n = 0xE0 then 0xA0 else 0x80,
      if n = 0xED then 0x9F else 0xBF), (0x80, 0xBF)] ∨
    (0xF0 ≤ n ∧ n ≤ 0xF4) ∧ bounds = [(if n = 0xF0 then 0x90 else 0x80,
      if n = 0xF4 then 0x8F else 0xBF), (0x80, 0xBF), (0x80, 0xBF)] := by
  unfold lead at h
  split at h
  · next hone => exact .inl ⟨hone, (Option.some.inj h).symm⟩
  split at h
  · exact nomatch h
  split at h
  · next htwo => exact .inr (.inl ⟨⟨by omega, htwo⟩, (Option.some.inj h).symm⟩)
  split at h
  · next hthree => exact .inr (.inr (.inl ⟨⟨by omega, hthree⟩, (Option.some.inj h).symm⟩))
  split at h
  · next hfour => exact .inr (.inr (.inr ⟨⟨by omega, hfour⟩, (Option.some.inj h).symm⟩))
  · exact nomatch h

theorem exists_char (h : v < 0xd800 ∨ 0xdfff < v ∧ v < 0x110000) : ∃ c : Char, c.val.toNat = v := by
  have hv : (UInt32.ofNat v).toNat = v := UInt32.toNat_ofNat_of_lt' (by change v < 4294967296; omega)
  have hvalid : (UInt32.ofNat v).isValidChar := by
    change (UInt32.ofNat v).toNat < 0xd800 ∨
      0xdfff < (UInt32.ofNat v).toNat ∧ (UInt32.ofNat v).toNat < 0x110000
    rwa [hv]
  exact ⟨⟨.ofNat v, hvalid⟩, hv⟩

theorem ofNat_eq {b : UInt8} (h : n = b.toNat) : UInt8.ofNat n = b := by
  rw [h, UInt8.ofNat_toNat]

theorem exists_encodeChar (hlead : lead first.toNat = some bounds)
    (h : List.Forall₂ (fun bound (byte : UInt8) => bound.1 ≤ byte.toNat ∧ byte.toNat ≤ bound.2)
      bounds rest) : ∃ c, String.utf8EncodeChar c = first :: rest := by
  unfold String.utf8EncodeChar
  obtain ⟨hone, rfl⟩ | ⟨htwo, rfl⟩ | ⟨hthree, rfl⟩ | ⟨hfour, rfl⟩ := lead_cases hlead
  · obtain rfl := List.forall₂_nil_left_iff.mp h
    obtain ⟨c, hc⟩ := exists_char (v := first.toNat) (by omega)
    apply Exists.intro c
    dsimp only
    rw [hc, if_pos hone, UInt8.ofNat_toNat]
  · obtain ⟨x, _, hx, hrest, rfl⟩ := List.forall₂_cons_left_iff.mp h
    obtain rfl := List.forall₂_nil_left_iff.mp hrest
    dsimp only at hx
    obtain ⟨c, hc⟩ := exists_char (v := (first.toNat - 0xC0) * 64 + (x.toNat - 0x80)) (by omega)
    apply Exists.intro c
    dsimp only
    rw [hc, if_neg (by omega), if_pos (by omega), ofNat_eq (b := first) (by omega),
      ofNat_eq (b := x) (by omega)]
  · obtain ⟨x, _, hx, hrest, rfl⟩ := List.forall₂_cons_left_iff.mp h
    obtain ⟨y, _, hy, hend, rfl⟩ := List.forall₂_cons_left_iff.mp hrest
    obtain rfl := List.forall₂_nil_left_iff.mp hend
    dsimp only at hx hy
    have htail : 0x80 ≤ x.toNat ∧ x.toNat ≤ 0xBF := by split_ifs at hx <;> omega
    obtain ⟨c, hc⟩ := exists_char (v := (first.toNat - 0xE0) * 4096 + (x.toNat - 0x80) * 64 +
      (y.toNat - 0x80)) (by split_ifs at hx <;> omega)
    have hlong : 0x7ff < c.val.toNat := by
      rw [hc]
      split_ifs at hx <;> omega
    apply Exists.intro c
    dsimp only
    rw [if_neg (by omega), if_neg (by omega), if_pos (by omega), hc,
      ofNat_eq (b := first) (by omega), ofNat_eq (b := x) (by omega),
      ofNat_eq (b := y) (by omega)]
  · obtain ⟨x, _, hx, hrest, rfl⟩ := List.forall₂_cons_left_iff.mp h
    obtain ⟨y, _, hy, hlast, rfl⟩ := List.forall₂_cons_left_iff.mp hrest
    obtain ⟨z, _, hz, hend, rfl⟩ := List.forall₂_cons_left_iff.mp hlast
    obtain rfl := List.forall₂_nil_left_iff.mp hend
    dsimp only at hx hy hz
    have htail : 0x80 ≤ x.toNat ∧ x.toNat ≤ 0xBF := by split_ifs at hx <;> omega
    obtain ⟨c, hc⟩ := exists_char (v := (first.toNat - 0xF0) * 262144 + (x.toNat - 0x80) * 4096 +
      (y.toNat - 0x80) * 64 + (z.toNat - 0x80)) (by split_ifs at hx <;> omega)
    have hlong : 0xffff < c.val.toNat := by
      rw [hc]
      split_ifs at hx <;> omega
    apply Exists.intro c
    dsimp only
    rw [if_neg (by omega), if_neg (by omega), if_neg (by omega), hc,
      ofNat_eq (b := first) (by omega), ofNat_eq (b := x) (by omega),
      ofNat_eq (b := y) (by omega), ofNat_eq (b := z) (by omega)]

theorem exists_of_head_char (h : head first rest = .char more) : ∃ c later,
    first :: rest = String.utf8EncodeChar c ++ later ∧
      (String.utf8EncodeChar c).length = more + 1 := by
  unfold head at h
  split at h
  · exact nomatch h
  · next bounds hlead =>
    obtain ⟨hmore, within, later, heq, hwithin⟩ := follow_char Nat.zero_lt_one h
    obtain ⟨c, hc⟩ := exists_encodeChar hlead hwithin
    apply Exists.intro c
    apply Exists.intro later
    rw [hc, heq, List.length_cons, ← hwithin.length_eq]
    exact ⟨rfl, by omega⟩

theorem head_of_encodeChar (h : first :: rest = String.utf8EncodeChar c ++ later) :
    ∃ more, head first rest = .char more ∧ (String.utf8EncodeChar c).length = more + 1 ∧
      rest.drop more = later := by
  obtain ⟨first', rest', hc, hhead⟩ := head_encodeChar c
  rw [hc, List.cons_append] at h
  obtain ⟨rfl, rfl⟩ := List.cons.inj h
  have hne : head first rest' ≠ .cut := by
    rw [hhead]
    exact nofun
  apply Exists.intro rest'.length
  rw [head_append hne, hc, List.length_cons, List.drop_left]
  exact ⟨hhead, rfl, rfl⟩

theorem fromUtf8_encodeChar_append (c : Char) (bytes : List UInt8) :
    fromUtf8 (String.utf8EncodeChar c ++ bytes) =
      (fromUtf8 bytes).map (·.shift (String.utf8EncodeChar c).length) := by
  obtain ⟨first, rest, hc, -⟩ := head_encodeChar c
  have heq : first :: (rest ++ bytes) = String.utf8EncodeChar c ++ bytes := by
    rw [hc, List.cons_append]
  obtain ⟨more, hhead, hlength, hdrop⟩ := head_of_encodeChar heq
  rw [← heq, fromUtf8, hhead, hlength]
  dsimp only
  rw [hdrop]

theorem shift_zero (error : Option Utf8Error) : error.map (·.shift 0) = error := by
  cases error with
  | none => rfl
  | some error =>
    rw [Option.map_some, Utf8Error.shift, Nat.zero_add]

theorem fromUtf8_encode_append (chars : List Char) (bytes : List UInt8) :
    fromUtf8 (encode chars ++ bytes) = (fromUtf8 bytes).map (·.shift (encode chars).length) := by
  induction chars with
  | nil => exact (shift_zero _).symm
  | cons c chars ih =>
    rw [encode_cons, List.append_assoc, fromUtf8_encodeChar_append, ih, Option.map_map,
      List.length_append]
    congr 1
    funext error
    exact congrArg (Utf8Error.mk · _) (Nat.add_assoc _ _ _).symm

theorem exists_text (bytes : List UInt8) : ∃ chars tail, bytes = encode chars ++ tail ∧
    Stuck tail := by
  induction bytes using fromUtf8.induct with
  | case1 => exact ⟨[], [], rfl, trivial⟩
  | case2 first rest more hhead ih =>
    obtain ⟨c, later, heq, -⟩ := exists_of_head_char hhead
    obtain ⟨more', hhead', -, hdrop⟩ := head_of_encodeChar heq
    obtain rfl : more' = more := Head.char.inj (hhead'.symm.trans hhead)
    obtain ⟨chars, tail, htail, hstuck⟩ := ih
    rw [heq, ← hdrop, htail]
    exact ⟨c :: chars, tail, (List.append_assoc ..).symm, hstuck⟩
  | case3 first rest hhead =>
    have hstuck : Stuck (first :: rest) := by
      intro more h
      exact nomatch hhead.symm.trans h
    exact ⟨[], first :: rest, rfl, hstuck⟩
  | case4 first rest length hhead =>
    have hstuck : Stuck (first :: rest) := by
      intro more h
      exact nomatch hhead.symm.trans h
    exact ⟨[], first :: rest, rfl, hstuck⟩

theorem encodeChar_append_inj (h : String.utf8EncodeChar c ++ bytes =
    String.utf8EncodeChar c' ++ bytes') : c = c' ∧ bytes = bytes' := by
  have harray := congrArg (fun bytes => ByteArray.utf8DecodeChar? bytes.toByteArray 0) h
  rw [List.toByteArray_append, List.toByteArray_append,
    ByteArray.utf8DecodeChar?_utf8EncodeChar_append,
    ByteArray.utf8DecodeChar?_utf8EncodeChar_append] at harray
  obtain rfl := Option.some.inj harray
  exact ⟨rfl, List.append_cancel_left h⟩

theorem prefix_of_stuck (hstuck : Stuck tail) (h : encode chars <+: encode chars' ++ tail) :
    chars <+: chars' := by
  induction chars generalizing chars' with
  | nil => exact List.nil_prefix
  | cons c chars ih =>
    obtain ⟨later, h⟩ := h
    rw [encode_cons, List.append_assoc] at h
    obtain ⟨first, rest, hc, -⟩ := head_encodeChar c
    cases chars' with
    | nil =>
      rw [encode_nil, List.nil_append] at h
      rw [hc, List.cons_append] at h
      rw [← h] at hstuck
      have heq : first :: (rest ++ (encode chars ++ later)) =
          String.utf8EncodeChar c ++ (encode chars ++ later) := by
        rw [hc, List.cons_append]
      obtain ⟨more, hhead, -⟩ := head_of_encodeChar heq
      exact absurd hhead (hstuck more)
    | cons c' chars' =>
      rw [encode_cons, List.append_assoc] at h
      obtain ⟨rfl, hlater⟩ := encodeChar_append_inj h
      exact List.cons_prefix_cons.mpr ⟨rfl, ih ⟨later, hlater⟩⟩

theorem fromUtf8_stuck (hstuck : Stuck tail) (hne : tail ≠ []) : ∃ errorLen,
    fromUtf8 tail = some ⟨0, errorLen⟩ ∧ (errorLen = none → tail.length ≤ 3) ∧
      (errorLen.isSome → ∀ later, Stuck (tail ++ later)) := by
  cases tail with
  | nil => exact absurd rfl hne
  | cons first rest =>
    rw [fromUtf8]
    cases hhead : head first rest with
    | char more => exact absurd hhead (hstuck more)
    | cut => exact ⟨none, rfl, fun _ => head_cut hhead, nofun⟩
    | invalid length =>
      have hcut : head first rest ≠ .cut := by
        rw [hhead]
        exact nofun
      have hlater : ∀ later, Stuck (first :: rest ++ later) := by
        intro later more h
        change head first (rest ++ later) = _ at h
        rw [head_append hcut, hhead] at h
        exact nomatch h
      exact ⟨some length, rfl, nofun, fun _ => hlater⟩

theorem fromUtf8_cases (bytes : List UInt8) :
    (∃ chars, bytes = encode chars ∧ fromUtf8 bytes = none) ∨
    ∃ chars tail errorLen, bytes = encode chars ++ tail ∧ tail ≠ [] ∧ Stuck tail ∧
      fromUtf8 bytes = some ⟨(encode chars).length, errorLen⟩ ∧
      (errorLen = none → tail.length ≤ 3) ∧
      (errorLen.isSome → ∀ later, Stuck (tail ++ later)) := by
  obtain ⟨chars, tail, rfl, hstuck⟩ := exists_text bytes
  by_cases htail : tail = []
  · subst htail
    left
    rw [fromUtf8_encode_append, List.append_nil, fromUtf8]
    exact ⟨chars, rfl, rfl⟩
  · right
    obtain ⟨errorLen, herror, hcut, hinvalid⟩ := fromUtf8_stuck hstuck htail
    rw [fromUtf8_encode_append, herror]
    exact ⟨chars, tail, errorLen, rfl, htail, hstuck, rfl, hcut, hinvalid⟩

theorem encode_eq_nil (h : encode chars = []) : chars = [] := by
  cases chars with
  | nil => rfl
  | cons c chars => exact absurd (List.append_eq_nil_iff.mp h).1 String.utf8EncodeChar_ne_nil

end Utf8
