import Cdesktop.RelayChannel

namespace Cdesktop.SigningStrings
open Fields (join Free)
open RelaySigning RelayWs
set_option autoImplicit true

def tokenChar (c : Char) : Bool :=
  c.isAlphanum || "!#$%&'*+-.^_`|~".toList.contains c

/-- `http::Method` -/
def IsMethod (method : String) : Prop :=
  method ≠ "" ∧ ∀ c ∈ method.toList, tokenChar c = true

def pathChar (c : Char) : Bool :=
  c.toNat > 32 && c ≠ '#' && c ≠ '<' && c ≠ '>'

/-- `http::uri::PathAndQuery`: it begins with the path, or with the query of an empty one, or is the
asterisk. -/
def IsPathAndQuery (pathAndQuery : String) : Prop :=
  (pathAndQuery = "*" ∨ pathAndQuery.toList.head? = some '/' ∨
      pathAndQuery.toList.head? = some '?') ∧
    ∀ c ∈ pathAndQuery.toList, pathChar c = true

inductive Signed where
  | request (timestamp : Int) (method pathAndQuery : String) (session nonce : RelaySigning.Uuid)
    (body : List UInt8)
  | response (timestamp : Int) (status : Nat) (pathAndQuery : String)
    (session requestNonce responseNonce : RelaySigning.Uuid) (body : List UInt8)
  | frame (session nonce : RelaySigning.Uuid) (seq : Nat) (msgType : RelayWsMessageType)
    (payload : List UInt8)
  | refresh (timestamp : Int) (nonce : String) (clientId : RelaySigning.Uuid)

/-- The string. Neither the timestamp of a frame's request nor the text of a signature is in it. -/
def Signed.text (lib : Libraries) : Signed → String
  | .request timestamp method pathAndQuery session nonce body =>
    buildRequestSigningMessage lib ⟨session, timestamp, nonce, ""⟩ method pathAndQuery body
  | .response timestamp status pathAndQuery session requestNonce responseNonce body =>
    buildResponseSigningMessage lib timestamp status pathAndQuery session requestNonce responseNonce
      body
  | .frame session nonce seq msgType payload =>
    wsSigningInput lib ⟨session, 0, nonce, ""⟩ seq msgType payload
  | .refresh timestamp nonce clientId => buildRefreshMessage timestamp nonce clientId

def Signed.Admitted : Signed → Prop
  | .request _ method pathAndQuery _ _ _ => IsMethod method ∧ IsPathAndQuery pathAndQuery
  | .response _ status pathAndQuery _ _ _ _ =>
    (100 ≤ status ∧ status < 1000) ∧ IsPathAndQuery pathAndQuery
  | .frame _ _ _ _ _ | .refresh _ _ _ => True

def Signed.hashed : Signed → List (List UInt8)
  | .request _ _ _ _ _ body | .response _ _ _ _ _ _ body | .frame _ _ _ _ body => [body]
  | .refresh _ _ _ => []

/-- The hash tells what is hashed for the one from what is hashed for the other. -/
def NoCollision (lib : Libraries) (a b : Signed) : Prop :=
  ∀ body ∈ a.hashed, ∀ body' ∈ b.hashed, lib.sha256 body = lib.sha256 body' → body = body'

/-- A request whose method is a status, and whose path ends with a session, as a response with that
status and that session has it. -/
def Mimics (lib : Libraries) : Signed → Signed → Prop
  | .request timestamp method pathAndQuery session nonce body,
    .response timestamp' status pathAndQuery' session' requestNonce responseNonce body' =>
    timestamp = timestamp' ∧ method = status.repr ∧
      pathAndQuery = pathAndQuery' ++ "|" ++ uuidToString session' ∧ session = requestNonce ∧
      nonce = responseNonce ∧ lib.sha256 body = lib.sha256 body'
  | _, _ => False

theorem tokenChar_of_digit (h : c.isDigit = true) : tokenChar c = true := by
  rw [tokenChar, Char.isAlphanum, h, Bool.or_true, Bool.true_or]

theorem tokenChar_hex : ∀ d < 16, tokenChar (Nat.digitChar d) = true := by decide

theorem tokenChar_bar : tokenChar '|' = true := by decide

theorem mem_hyphenated (h : c ∈ hyphenated digits) : c = '-' ∨ c ∈ digits := by
  by_cases hc : c = '-'
  · exact .inl hc
  apply Or.inr
  rw [hyphenated] at h
  simp only [List.mem_append, List.mem_cons, hc, false_or] at h
  rcases h with h | h | h | h | h
  · exact List.mem_of_mem_take h
  · exact List.mem_of_mem_drop (List.mem_of_mem_take h)
  · exact List.mem_of_mem_drop (List.mem_of_mem_take h)
  · exact List.mem_of_mem_drop (List.mem_of_mem_take h)
  · exact List.mem_of_mem_drop h

theorem tokenChar_uuid (id : RelaySigning.Uuid) :
    ∀ c ∈ (uuidToString id).toList, tokenChar c = true := by
  intro c hc
  rw [uuidToString, String.toList_ofList] at hc
  cases mem_hyphenated hc with
  | inl hhyphen =>
    rw [hhyphen]
    decide
  | inr hdigit =>
    obtain ⟨d, hd, rfl⟩ := digitChar_of_mem_hexDigits hdigit
    exact tokenChar_hex d hd

theorem tokenChar_repr (n : Nat) : ∀ c ∈ n.repr.toList, tokenChar c = true :=
  fun _ hc => tokenChar_of_digit (Fields.isDigit_of_mem_repr hc)

def Begins (s : String) : Prop :=
  s = "*" ∨ ∃ c rest, s.toList = c :: rest ∧ tokenChar c = false

theorem IsPathAndQuery.begins (h : IsPathAndQuery pathAndQuery) : Begins pathAndQuery := by
  cases h.1 with
  | inl hstar => exact .inl hstar
  | inr hhead =>
    apply Or.inr
    cases hlist : pathAndQuery.toList with
    | nil =>
      rw [hlist] at hhead
      cases hhead with
      | inl h => cases h
      | inr h => cases h
    | cons c rest =>
      rw [hlist] at hhead
      refine ⟨c, rest, rfl, ?_⟩
      cases hhead with
      | inl h =>
        cases h
        decide
      | inr h =>
        cases h
        decide

theorem toList_join_two (s t : String) : (join '|' [s, t]).toList = s.toList ++ '|' :: t.toList :=
  Fields.toList_join_cons '|' s t []

variable {s t : String} {lib : Libraries}

theorem forall_mem_join (hs : ∀ c ∈ s.toList, tokenChar c = true)
    (ht : ∀ c ∈ t.toList, tokenChar c = true) :
    ∀ c ∈ (join '|' [s, t]).toList, tokenChar c = true := by
  intro c hc
  rw [toList_join_two, List.mem_append, List.mem_cons] at hc
  rcases hc with hmem | hbar | hmem
  · exact hs c hmem
  · rw [hbar]
    exact tokenChar_bar
  · exact ht c hmem

theorem star_tokens : ∀ c ∈ "*".toList, tokenChar c = true :=
  List.all_eq_true.1 (by decide)

theorem join_ne_of_tokens {u : String} {c : Char} {rest : List Char}
    (ht : t.toList = c :: rest) (hc : tokenChar c = false)
    (hu : ∀ c ∈ u.toList, tokenChar c = true) :
    join '|' [s, t] ≠ u := by
  intro heq
  have hmem : c ∈ (join '|' [s, t]).toList := by
    rw [toList_join_two, ht]
    exact List.mem_append_right _ (List.mem_cons_of_mem _ List.mem_cons_self)
  rw [heq] at hmem
  rw [hu c hmem] at hc
  cases hc

theorem join_two_inj {s' t' : String} (hs : ∀ c ∈ s.toList, tokenChar c = true)
    (hs' : ∀ c ∈ s'.toList, tokenChar c = true) (ht : Begins t) (ht' : Begins t')
    (h : join '|' [s, t] = join '|' [s', t']) : s = s' ∧ t = t' := by
  cases ht with
  | inl hstar =>
    subst hstar
    cases ht' with
    | inl hstar' =>
      subst hstar'
      have hfree : Free '|' "*" := by
        rw [Free]
        decide
      have hlist := congrArg String.toList h
      rw [toList_join_two, toList_join_two] at hlist
      exact ⟨String.toList_inj.mp (Fields.append_cons_inj_last hfree hfree hlist).1, rfl⟩
    | inr hpath =>
      obtain ⟨c, rest, hlist, hc⟩ := hpath
      exact (join_ne_of_tokens hlist hc (forall_mem_join hs star_tokens) h.symm).elim
  | inr hpath =>
    obtain ⟨c, rest, hlist, hc⟩ := hpath
    cases ht' with
    | inl hstar' =>
      subst hstar'
      exact (join_ne_of_tokens hlist hc (forall_mem_join hs' star_tokens) h).elim
    | inr hpath' =>
      obtain ⟨c', rest', hlist', hc'⟩ := hpath'
      have hall : ∀ u : String, (∀ c ∈ u.toList, tokenChar c = true) →
          ∀ c ∈ u.toList ++ ['|'], tokenChar c = true := by
        intro u hu c hmem
        cases List.mem_append.mp hmem with
        | inl hfront => exact hu c hfront
        | inr hbar =>
          rw [List.mem_singleton.mp hbar]
          exact tokenChar_bar
      have heq := congrArg String.toList h
      rw [toList_join_two, toList_join_two, hlist, hlist', ← List.singleton_append,
        ← List.append_assoc, ← List.singleton_append (l := c' :: rest'), ← List.append_assoc] at heq
      obtain ⟨hfront, hrest⟩ :=
        Fields.append_cons_inj_of_all (hall s hs) (hall s' hs') hc hc' heq
      rw [← hlist, ← hlist'] at hrest
      exact ⟨String.toList_inj.mp (List.append_cancel_right hfront), String.toList_inj.mp hrest⟩

theorem minus_not_mem_repr (n : Nat) : '-' ∉ n.repr.toList := by
  intro hmem
  exact absurd (Fields.isDigit_of_mem_repr hmem) (by decide)

theorem int_repr_inj {m n : Int} (h : m.repr = n.repr) : m = n := by
  have hsign : ∀ j k : Nat, j.repr ≠ "-" ++ k.repr := by
    intro j k heq
    apply minus_not_mem_repr j
    rw [heq, String.toList_append]
    exact List.mem_append_left _ List.mem_cons_self
  rw [Int.repr_eq_if, Int.repr_eq_if] at h
  split at h
  next hm =>
    split at h
    next hn =>
      have hnat := repr_inj h
      omega
    next hn => exact (hsign _ _ h).elim
  next hm =>
    split at h
    next hn => exact (hsign _ _ h.symm).elim
    next hn =>
      have hlist := congrArg String.toList h
      rw [String.toList_append, String.toList_append] at hlist
      have hnat := repr_inj (String.toList_inj.mp (List.append_cancel_left hlist))
      omega

theorem base64_inj (hlib : lib.Lawful)
    (h : lib.encode (lib.sha256 body) = lib.encode (lib.sha256 body')) :
    lib.sha256 body = lib.sha256 body' := by
  have hdecoded := congrArg lib.decode h
  rw [hlib.decode_encode, hlib.decode_encode] at hdecoded
  exact Option.some.inj hdecoded

theorem message_inj (hlib : lib.Lawful) {timestamp timestamp' : Int} (fields fields' : List String)
    (h : join '|' ("v1" :: timestamp.repr :: s ::
        (fields ++ [uuidToString a, uuidToString b, lib.encode (lib.sha256 body)])) =
      join '|' ("v1" :: timestamp'.repr :: s' ::
        (fields' ++ [uuidToString a', uuidToString b', lib.encode (lib.sha256 body')]))) :
    timestamp = timestamp' ∧ join '|' (s :: fields) = join '|' (s' :: fields') ∧ a = a' ∧ b = b' ∧
      lib.sha256 body = lib.sha256 body' := by
  have hsplit : ∀ (s : String) (fields : List String) (t u v : String),
      s :: (fields ++ [t, u, v]) = s :: (fields ++ [t, u]) ++ [v] := by simp
  have hsplit' : ∀ (s : String) (fields : List String) (t u : String),
      s :: (fields ++ [t, u]) = s :: (fields ++ [t]) ++ [u] := by simp
  obtain ⟨-, h⟩ := Fields.join_cons_inj free_v1 free_v1 h
  obtain ⟨htimestamp, h⟩ := Fields.join_cons_inj (timestamp_free _) (timestamp_free _) h
  rw [hsplit, hsplit] at h
  obtain ⟨h, hhash⟩ := Fields.join_concat_inj (hlib.encode_free _) (hlib.encode_free _) h
  rw [hsplit', hsplit'] at h
  obtain ⟨h, hb⟩ := Fields.join_concat_inj (uuidToString_free _) (uuidToString_free _) h
  rw [← List.cons_append, ← List.cons_append] at h
  obtain ⟨h, ha⟩ := Fields.join_concat_inj (uuidToString_free _) (uuidToString_free _) h
  exact ⟨int_repr_inj htimestamp, h, uuidToString_inj ha, uuidToString_inj hb,
    base64_inj hlib hhash⟩

theorem request_inj (hlib : lib.Lawful) (hmethod : IsMethod method)
    (hpath : IsPathAndQuery path) (hmethod' : IsMethod method') (hpath' : IsPathAndQuery path')
    (h : (Signed.request timestamp method path session nonce body).text lib =
      (Signed.request timestamp' method' path' session' nonce' body').text lib) :
    timestamp = timestamp' ∧ method = method' ∧ path = path' ∧ session = session' ∧
      nonce = nonce' ∧ lib.sha256 body = lib.sha256 body' := by
  obtain ⟨htimestamp, hmiddle, hsession, hnonce, hhash⟩ :=
    message_inj hlib [path] [path'] h
  obtain ⟨hm, hp⟩ := join_two_inj hmethod.2 hmethod'.2 hpath.begins hpath'.begins hmiddle
  exact ⟨htimestamp, hm, hp, hsession, hnonce, hhash⟩

theorem response_inj (hlib : lib.Lawful)
    (h : (Signed.response timestamp status path session requestNonce responseNonce body).text lib =
      (Signed.response timestamp' status' path' session' requestNonce' responseNonce' body').text
        lib) :
    timestamp = timestamp' ∧ status = status' ∧ path = path' ∧ session = session' ∧
      requestNonce = requestNonce' ∧ responseNonce = responseNonce' ∧
      lib.sha256 body = lib.sha256 body' := by
  obtain ⟨htimestamp, h, hrequest, hresponse, hhash⟩ :=
    message_inj hlib [path, uuidToString session] [path', uuidToString session'] h
  obtain ⟨hstatus, h⟩ := Fields.join_cons_inj (seq_free _) (seq_free _) h
  have hlast : join '|' (path :: [] ++ [uuidToString session]) =
      join '|' (path' :: [] ++ [uuidToString session']) := h
  obtain ⟨hpath, hsession⟩ := Fields.join_concat_inj (uuidToString_free _) (uuidToString_free _) hlast
  exact ⟨htimestamp, repr_inj hstatus, hpath, uuidToString_inj hsession, hrequest, hresponse, hhash⟩

theorem refresh_inj
    (h : buildRefreshMessage timestamp nonce clientId =
      buildRefreshMessage timestamp' nonce' clientId') :
    timestamp = timestamp' ∧ nonce = nonce' ∧ clientId = clientId' := by
  rw [buildRefreshMessage, buildRefreshMessage] at h
  obtain ⟨-, h⟩ := Fields.join_cons_inj free_v1 free_v1 h
  obtain ⟨-, h⟩ := Fields.join_cons_inj free_refresh free_refresh h
  obtain ⟨htimestamp, h⟩ := Fields.join_cons_inj (timestamp_free _) (timestamp_free _) h
  have hlast : join '|' (nonce :: [] ++ [uuidToString clientId]) =
      join '|' (nonce' :: [] ++ [uuidToString clientId']) := h
  obtain ⟨hnonce, hclient⟩ :=
    Fields.join_concat_inj (uuidToString_free _) (uuidToString_free _) hlast
  exact ⟨int_repr_inj htimestamp, hnonce, uuidToString_inj hclient⟩

theorem uuid_ne_star (id : RelaySigning.Uuid) (s : String) :
    join '|' [s, uuidToString id] ≠ join '|' [t, "*"] := by
  intro h
  have hfree : Free '|' "*" := by
    rw [Free]
    decide
  have hlist := congrArg String.toList h
  rw [toList_join_two, toList_join_two] at hlist
  have hstar := String.toList_inj.mp
    (Fields.append_cons_inj_last (uuidToString_free id) hfree hlist).2
  have hhyphen := uuidToString_hyphen id
  rw [hstar] at hhyphen
  exact absurd hhyphen (by decide)

theorem mimics_of_text_eq (hlib : lib.Lawful) (hmethod : IsMethod method)
    (hpath : IsPathAndQuery path) (hpath' : IsPathAndQuery path')
    (h : (Signed.request timestamp method path session nonce body).text lib =
      (Signed.response timestamp' status path' session' requestNonce responseNonce body').text lib) :
    Mimics lib (.request timestamp method path session nonce body)
      (.response timestamp' status path' session' requestNonce responseNonce body') := by
  obtain ⟨htimestamp, h, hrequest, hresponse, hhash⟩ :=
    message_inj hlib [path] [path', uuidToString session'] h
  have hjoin : join '|' [status.repr, path', uuidToString session'] =
      join '|' [status.repr, path' ++ "|" ++ uuidToString session'] := by
    apply String.toList_inj.mp
    rw [toList_join_two, Fields.toList_join_cons, toList_join_two, String.toList_append,
      String.toList_append, List.append_assoc]
    rfl
  have hbegins : Begins (path' ++ "|" ++ uuidToString session') := by
    cases hpath'.begins with
    | inl hstar =>
      subst hstar
      have htokens := forall_mem_join (tokenChar_repr status)
        (forall_mem_join star_tokens (tokenChar_uuid session'))
      have hassoc : join '|' [status.repr, "*", uuidToString session'] =
          join '|' [status.repr, join '|' ["*", uuidToString session']] := rfl
      cases hpath.begins with
      | inl hstar =>
        subst hstar
        have hlast : join '|' [join '|' [status.repr, "*"], uuidToString session'] =
            join '|' [status.repr, "*", uuidToString session'] := by
          apply String.toList_inj.mp
          rw [toList_join_two, toList_join_two, Fields.toList_join_cons, toList_join_two,
            List.append_assoc]
          rfl
        exact (uuid_ne_star session' _ (hlast.trans h.symm)).elim
      | inr hbegins =>
        obtain ⟨c, rest, hlist, hc⟩ := hbegins
        rw [hassoc] at h
        exact (join_ne_of_tokens hlist hc htokens h).elim
    | inr hbegins =>
      obtain ⟨c, rest, hlist, hc⟩ := hbegins
      refine .inr ⟨c, rest ++ '|' :: (uuidToString session').toList, ?_, hc⟩
      rw [String.toList_append, String.toList_append, hlist, List.append_assoc]
      rfl
  rw [hjoin] at h
  obtain ⟨hstatus, hpaths⟩ := join_two_inj hmethod.2 (tokenChar_repr status) hpath.begins hbegins h
  exact ⟨htimestamp, hstatus, hpaths, hrequest, hresponse, hhash⟩

theorem text_eq_of_mimics (h : Mimics lib a b) : a.text lib = b.text lib := by
  cases a with
  | request timestamp method path session nonce body =>
    cases b with
    | response timestamp' status path' session' requestNonce responseNonce body' =>
      obtain ⟨rfl, rfl, rfl, rfl, rfl, hhash⟩ := h
      apply String.toList_inj.mp
      rw [Signed.text, Signed.text, buildRequestSigningMessage, buildResponseSigningMessage, hhash]
      simp only [Fields.toList_join_cons, String.toList_append]
      simp
    | _ => exact h.elim
  | _ => exact h.elim

theorem int_repr_ne_refresh (n : Int) : n.repr ≠ "refresh" := by
  intro heq
  obtain ⟨k, hdigits | hdigits⟩ := Fields.toList_intRepr n
  · have hmem : 'r' ∈ k.repr.toList := by
      rw [← hdigits, heq]
      decide
    exact absurd (Fields.isDigit_of_mem_repr hmem) (by decide)
  · rw [heq] at hdigits
    exact absurd hdigits (by simp)

theorem refresh_ne_of_timestamp {fields : List String} (n : Int) :
    buildRefreshMessage timestamp nonce clientId ≠
      join '|' ("v1" :: n.repr :: third :: fields) := by
  intro h
  rw [buildRefreshMessage] at h
  obtain ⟨-, h⟩ := Fields.join_cons_inj free_v1 free_v1 h
  obtain ⟨hsecond, -⟩ := Fields.join_cons_inj free_refresh (timestamp_free _) h
  exact int_repr_ne_refresh n hsecond.symm

theorem frame_inj (hlib : lib.Lawful) (hhash : NoCollision lib
      (.frame session nonce seq msgType payload) b)
    (h : (Signed.frame session nonce seq msgType payload).text lib = b.text lib) :
    Signed.frame session nonce seq msgType payload = b := by
  have hsigned : IsSigningInput lib ⟨session, 0, nonce, ""⟩ (utf8 (b.text lib)) :=
    ⟨seq, msgType, payload, congrArg utf8 h.symm⟩
  cases b with
  | request timestamp method path session' nonce' body =>
    exact (request_not_isSigningInput lib _ _ _ _ _ hsigned).elim
  | response timestamp status path session' requestNonce responseNonce body =>
    exact (response_not_isSigningInput lib _ _ _ _ _ _ _ _ hsigned).elim
  | refresh timestamp nonce' clientId =>
    exact (refresh_not_isSigningInput lib _ _ _ _ hsigned).elim
  | frame session' nonce' seq' msgType' payload' =>
    obtain ⟨hsession, hnonce, hseq, htype, hpayload⟩ := wsSigningInput_inj hlib h
    dsimp only at hsession hnonce
    rw [hsession, hnonce, hseq, htype,
      hhash payload List.mem_cons_self payload' List.mem_cons_self hpayload]

/-- Two strings are equal only if they are of one kind and of the same values, but for requests whose
method and path read like a status and a session. -/
theorem signing_strings_unambiguous_iff (lib : Libraries) (hlib : lib.Lawful) (a b : Signed)
    (ha : a.Admitted) (hb : b.Admitted) (hhash : NoCollision lib a b)
    (hhash' : NoCollision lib b a) :
    (a.text lib = b.text lib → a = b) ↔ ¬ (Mimics lib a b ∨ Mimics lib b a) := by
  apply Iff.intro
  · intro h hmimics
    cases hmimics with
    | inl hmimics =>
      rw [h (text_eq_of_mimics hmimics)] at hmimics
      cases b <;> exact hmimics
    | inr hmimics =>
      rw [h (text_eq_of_mimics hmimics).symm] at hmimics
      cases b <;> exact hmimics
  · intro hnot h
    cases a with
    | frame session nonce seq msgType payload => exact frame_inj hlib hhash h
    | request timestamp method path session nonce body =>
      cases b with
      | frame session' nonce' seq msgType payload => exact (frame_inj hlib hhash' h.symm).symm
      | request timestamp' method' path' session' nonce' body' =>
        obtain ⟨htimestamp, hmethod, hpath, hsession, hnonce, hbody⟩ :=
          request_inj hlib ha.1 ha.2 hb.1 hb.2 h
        rw [htimestamp, hmethod, hpath, hsession, hnonce,
          hhash body List.mem_cons_self body' List.mem_cons_self hbody]
      | response timestamp' status path' session' requestNonce responseNonce body' =>
        exact (hnot (.inl (mimics_of_text_eq hlib ha.1 ha.2 hb.2 h))).elim
      | refresh timestamp' nonce' clientId => exact (refresh_ne_of_timestamp _ h.symm).elim
    | response timestamp status path session requestNonce responseNonce body =>
      cases b with
      | frame session' nonce' seq msgType payload => exact (frame_inj hlib hhash' h.symm).symm
      | request timestamp' method' path' session' nonce' body' =>
        exact (hnot (.inr (mimics_of_text_eq hlib hb.1 hb.2 ha.2 h.symm))).elim
      | response timestamp' status' path' session' requestNonce' responseNonce' body' =>
        obtain ⟨htimestamp, hstatus, hpath, hsession, hrequest, hresponse, hbody⟩ :=
          response_inj hlib h
        rw [htimestamp, hstatus, hpath, hsession, hrequest, hresponse,
          hhash body List.mem_cons_self body' List.mem_cons_self hbody]
      | refresh timestamp' nonce' clientId => exact (refresh_ne_of_timestamp _ h.symm).elim
    | refresh timestamp nonce clientId =>
      cases b with
      | frame session' nonce' seq msgType payload => exact (frame_inj hlib hhash' h.symm).symm
      | request timestamp' method' path' session' nonce' body' =>
        exact (refresh_ne_of_timestamp _ h).elim
      | response timestamp' status path' session' requestNonce responseNonce body' =>
        exact (refresh_ne_of_timestamp _ h).elim
      | refresh timestamp' nonce' clientId' =>
        obtain ⟨htimestamp, hnonce, hclient⟩ := refresh_inj h
        rw [htimestamp, hnonce, hclient]

def sampleRequest : Signed :=
  .request 1700000000 "200" "/api/config|00000000-0000-0000-0000-000000000001" 2 3 hello

def sampleResponse : Signed := .response 1700000000 200 "/api/config" 1 2 3 hello

theorem sampleRequest_admitted : sampleRequest.Admitted := by
  refine ⟨⟨by decide, List.all_eq_true.1 (by decide)⟩, .inr (.inl (by decide +kernel)), ?_⟩
  exact List.all_eq_true.1 (by decide +kernel)

theorem sampleResponse_admitted : sampleResponse.Admitted := by
  refine ⟨⟨by decide, by decide⟩, .inr (.inl (by decide +kernel)), ?_⟩
  exact List.all_eq_true.1 (by decide +kernel)

theorem sample_noCollision {a b : Signed} (ha : a.hashed = [hello]) (hb : b.hashed = [hello]) :
    NoCollision sampleLibraries a b := by
  intro body hbody body' hbody' _
  rw [ha] at hbody
  rw [hb] at hbody'
  rw [List.mem_singleton.mp hbody, List.mem_singleton.mp hbody']

theorem signing_strings_unambiguous_iff_sample :
    (sampleRequest.text sampleLibraries = sampleResponse.text sampleLibraries →
        sampleRequest = sampleResponse) ↔
      ¬ (Mimics sampleLibraries sampleRequest sampleResponse ∨
        Mimics sampleLibraries sampleResponse sampleRequest) := by
  apply signing_strings_unambiguous_iff
  · exact sampleLibraries_lawful
  · exact sampleRequest_admitted
  · exact sampleResponse_admitted
  · exact sample_noCollision rfl rfl
  · exact sample_noCollision rfl rfl

/-- A request and a response that what is signed does not tell apart. -/
theorem request_response_same_string :
    sampleRequest.Admitted ∧ sampleResponse.Admitted ∧
      sampleRequest.text sampleLibraries = sampleResponse.text sampleLibraries ∧
      sampleRequest ≠ sampleResponse := by
  refine ⟨sampleRequest_admitted, sampleResponse_admitted, ?_, nofun⟩
  apply text_eq_of_mimics
  exact ⟨rfl, by decide +kernel, by decide +kernel, rfl, rfl, rfl⟩

end Cdesktop.SigningStrings
