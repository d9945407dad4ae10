import Devcroft.Proxy.Forwarding

/-!
# What the upstream server learns of the token

The same request is made in two runs that differ in the session token only. The head
of a plain request is forwarded as it was read, and it decides which token it carries,
so two different tokens show in it.
-/

namespace Devcroft.Proxy

open Buffered

/-- The first line with its newline is the first line of whatever begins with it; without a newline
it is everything. -/
theorem lineOf_cases (bytes : List UInt8) :
    (∀ more, lineOf (lineOf bytes ++ more) = lineOf bytes) ∨ lineOf bytes = bytes := by
  cases hup : upTo Utf8.newline bytes with
  | none =>
    right
    rw [lineOf_eq, hup, Option.getD_none]
  | some line =>
    left
    intro more
    rw [lineOf_eq bytes, hup, Option.getD_some, lineOf_eq, upTo_append_of_some (upTo_self hup),
      Option.getD_some]

theorem lineOf_append_drop (bytes : List UInt8) :
    lineOf bytes ++ bytes.drop (lineOf bytes).length = bytes :=
  List.prefix_iff_eq_append.mp (lineOf_isPrefix bytes)

theorem lineOf_drop_of_all {bytes : List UInt8} (h : lineOf bytes = bytes) :
    bytes.drop (lineOf bytes).length = [] := by
  rw [h, List.drop_length]

theorem headerLines_nil : headerLines [] = [] := by
  have hline : lineOf [] = [] := rfl
  rw [headerLines, if_pos (Or.inl hline), hline]

/-- Likewise for the header lines: the blank line that ends them, or the end of the stream. -/
theorem headerLines_cases (bytes : List UInt8) :
    (∀ more, headerLines (headerLines bytes ++ more) = headerLines bytes) ∨
      headerLines bytes = bytes := by
  induction bytes using headerLines.induct with
  | case1 bytes hstop =>
    rw [headerLines.eq_def bytes, if_pos hstop]
    rcases lineOf_cases bytes with hline | hall
    · left
      intro more
      rw [headerLines, hline, if_pos hstop]
    · exact Or.inr hall
  | case2 bytes hgo ih =>
    have hsplit := lineOf_append_drop bytes
    rw [headerLines.eq_def bytes, if_neg hgo]
    rcases lineOf_cases bytes with hline | hall
    · rcases ih with hclosed | hopen
      · left
        intro more
        rw [headerLines, List.append_assoc, hline, if_neg hgo, List.drop_left, hclosed]
      · right
        rw [hopen, hsplit]
    · right
      rw [lineOf_drop_of_all hall, headerLines_nil, List.append_nil, hall]

/-- The head of a request is the head of whatever begins with it, unless the stream ends with it. -/
theorem requestHead_cases (bytes : List UInt8) :
    (∀ more, requestHead (requestHead bytes ++ more) = requestHead bytes) ∨
      requestHead bytes = bytes := by
  have hsplit := lineOf_append_drop bytes
  unfold requestHead
  rcases lineOf_cases bytes with hline | hall
  · rcases headerLines_cases (bytes.drop (lineOf bytes).length) with hclosed | hopen
    · left
      intro more
      rw [List.append_assoc, hline, List.drop_left, hclosed]
    · right
      rw [hopen, hsplit]
  · right
    rw [lineOf_drop_of_all hall, headerLines_nil, List.append_nil, hall]

/-- The head of a head is the whole. -/
theorem requestHead_requestHead (bytes : List UInt8) :
    requestHead (requestHead bytes) = requestHead bytes := by
  rcases requestHead_cases bytes with hclosed | hopen
  · simpa using hclosed []
  · rw [hopen, hopen]

/-- A line with what follows it has that line as its first. -/
theorem lineOf_of_rest {bytes rest : List UInt8} (h : lineOf bytes = bytes → rest = []) :
    lineOf (lineOf bytes ++ rest) = lineOf bytes := by
  rcases lineOf_cases bytes with hline | hall
  · exact hline rest
  · rw [h hall, List.append_nil, hall, hall]

/-- The head determines the first line. -/
theorem lineOf_requestHead (bytes : List UInt8) : lineOf (requestHead bytes) = lineOf bytes :=
  lineOf_of_rest fun hall => by rw [lineOf_drop_of_all hall, headerLines_nil]

/-- The header lines determine the first of them. -/
theorem lineOf_headerLines (bytes : List UInt8) : lineOf (headerLines bytes) = lineOf bytes := by
  rw [headerLines]
  split
  · have hself : lineOf (lineOf bytes ++ []) = lineOf bytes := lineOf_of_rest fun _ => rfl
    simpa using hself
  · exact lineOf_of_rest fun hall => by rw [lineOf_drop_of_all hall, headerLines_nil]

/-- Two readers with the same header lines ahead read the same line, and then have the same header
lines ahead. -/
theorem readCappedLine_eq {strerror : ℕ → String} {reader₁ reader₂ : Reader} {budget₁ budget₂ : ℕ}
    {line₁ line₂ : CappedLine} (hsame : headerLines reader₁.bytes = headerLines reader₂.bytes)
    (h₁ : readCappedLine strerror reader₁ budget₁ = .ok line₁)
    (h₂ : readCappedLine strerror reader₂ budget₂ = .ok line₂) :
    line₁.out = line₂.out ∧
    ((line₁.n = 0 ∨ Text.trimEnd line₁.out = "") ↔ (line₂.n = 0 ∨ Text.trimEnd line₂.out = "")) ∧
    (¬(line₁.n = 0 ∨ Text.trimEnd line₁.out = "") →
      headerLines line₁.reader.bytes = headerLines line₂.reader.bytes) := by
  obtain ⟨hline₁, hrest₁⟩ := readCappedLine_eq_lineOf h₁
  obtain ⟨hline₂, hrest₂⟩ := readCappedLine_eq_lineOf h₂
  have hline : lineOf reader₁.bytes = lineOf reader₂.bytes := by
    rw [← lineOf_headerLines reader₁.bytes, hsame, lineOf_headerLines]
  rw [readCappedLine_stops_iff h₁, readCappedLine_stops_iff h₂, hline]
  refine ⟨Utf8.encode_injective (by rw [hline₁, hline₂, hline]), Iff.rfl, fun hgo => ?_⟩
  rw [headerLines.eq_def reader₁.bytes, headerLines.eq_def reader₂.bytes, hline, if_neg hgo,
    if_neg hgo] at hsame
  rw [hrest₁, hrest₂, hline]
  exact List.append_cancel_left hsame

/-- Two requests with the same header lines are read alike, however they arrive. -/
theorem readHeaders_eq {strerror : ℕ → String} {reader₁ reader₂ reader₁' reader₂' : Reader}
    {budget₁ budget₂ : ℕ} {head head₁ head₂ : Head}
    (hsame : headerLines reader₁.bytes = headerLines reader₂.bytes)
    (h₁ : readHeaders strerror reader₁ budget₁ head = .ok (head₁, reader₁'))
    (h₂ : readHeaders strerror reader₂ budget₂ head = .ok (head₂, reader₂')) : head₁ = head₂ := by
  fun_induction readHeaders strerror reader₁ budget₁ head generalizing reader₂ budget₂ with
  | case1 reader₁ budget₁ head e hread => cases h₁
  | case2 reader₁ budget₁ head line hread hend =>
    rw [readHeaders] at h₂
    split at h₂
    · cases h₂
    · next line₂ hread₂ =>
      obtain ⟨hout, hstops, -⟩ := readCappedLine_eq hsame hread hread₂
      rw [if_pos (hstops.mp hend)] at h₂
      obtain ⟨rfl, -⟩ := Prod.mk.inj (Except.ok.inj h₁)
      obtain ⟨rfl, -⟩ := Prod.mk.inj (Except.ok.inj h₂)
      rw [hout]
  | case3 reader₁ budget₁ head line hread hend ih =>
    rw [readHeaders] at h₂
    split at h₂
    · cases h₂
    · next line₂ hread₂ =>
      obtain ⟨hout, hstops, hrest⟩ := readCappedLine_eq hsame hread hread₂
      rw [if_neg (mt hstops.mpr hend), ← hout] at h₂
      exact ih (hrest hend) h₁ h₂

/-- Two clients whose requests have the same head ask for the same. -/
theorem readTarget_eq {strerror : ℕ → String} {client₁ client₂ : Client}
    {target₁ target₂ : Target} {reader₁ reader₂ : Reader}
    (hsame : requestHead client₁.source.bytes = requestHead client₂.source.bytes)
    (h₁ : readTarget strerror client₁ = .ok (some (target₁, reader₁)))
    (h₂ : readTarget strerror client₂ = .ok (some (target₂, reader₂))) : target₁ = target₂ := by
  obtain ⟨line₁, method₁, str₁, rest₁, head₁, hread₁, -, hpieces₁, hheaders₁, htarget₁⟩ :=
    readTarget_eq_some h₁
  obtain ⟨line₂, method₂, str₂, rest₂, head₂, hread₂, -, hpieces₂, hheaders₂, htarget₂⟩ :=
    readTarget_eq_some h₂
  obtain ⟨hline₁, hrest₁⟩ := readCappedLine_eq_lineOf hread₁
  obtain ⟨hline₂, hrest₂⟩ := readCappedLine_eq_lineOf hread₂
  change _ = lineOf client₁.source.bytes at hline₁
  change _ = lineOf client₂.source.bytes at hline₂
  have hline : lineOf client₁.source.bytes = lineOf client₂.source.bytes := by
    rw [← lineOf_requestHead client₁.source.bytes, hsame, lineOf_requestHead]
  have hout : line₁.out = line₂.out := Utf8.encode_injective (by rw [hline₁, hline₂, hline])
  rw [hout, hpieces₂] at hpieces₁
  obtain ⟨rfl, htail⟩ := List.cons.inj hpieces₁
  obtain ⟨rfl, -⟩ := List.cons.inj htail
  unfold requestHead at hsame
  rw [hline] at hsame
  have hheaders : headerLines line₁.reader.bytes = headerLines line₂.reader.bytes := by
    rw [hrest₁, hrest₂]
    change headerLines (client₁.source.bytes.drop (lineOf client₁.source.bytes).length) =
      headerLines (client₂.source.bytes.drop (lineOf client₂.source.bytes).length)
    rw [hline]
    exact List.append_cancel_left hsame
  rw [hout] at hheaders₁
  rw [readHeaders_eq hheaders hheaders₁ hheaders₂, htarget₂] at htarget₁
  exact (Except.ok.inj htarget₁).symm

/-- The accumulated differences are zero just when there are none. -/
theorem foldl_differences_eq_zero_iff (pairs : List (UInt8 × UInt8)) (acc : UInt8) :
    pairs.foldl (fun acc (x, y) => acc ||| (x ^^^ y)) acc = 0 ↔
      acc = 0 ∧ ∀ p ∈ pairs, p.1 = p.2 := by
  induction pairs generalizing acc with
  | nil => simp
  | cons p pairs ih =>
    rw [List.foldl_cons, ih, UInt8.or_eq_zero_iff, UInt8.xor_eq_zero_iff, and_assoc,
      List.forall_mem_cons]

/-- The comparison of tokens finds the same token only. -/
theorem eq_of_constantTimeEq {a b : List UInt8} (h : constantTimeEq a b = true) : a = b := by
  unfold constantTimeEq at h
  split at h
  · cases h
  · next hlength =>
    have hpairs := ((foldl_differences_eq_zero_iff _ _).mp (of_decide_eq_true h)).2
    refine List.ext_getElem (not_not.mp hlength) fun i ha hb => ?_
    exact hpairs (a[i], b[i]) (List.mem_iff_getElem.mpr ⟨i, by simp; omega, by simp⟩)

/-- A header authorizes for one token only. -/
theorem authorized_unique {base64Decode : String → Option (List UInt8)} {header : Option String}
    {t₁ t₂ : String} (h₁ : authorized base64Decode header t₁ = true)
    (h₂ : authorized base64Decode header t₂ = true) : t₁ = t₂ := by
  unfold authorized at h₁ h₂
  cases header with
  | none => cases h₁
  | some header =>
    dsimp only at h₁ h₂
    split at h₁
    · cases h₁
    · next encoded hencoded =>
      rw [hencoded] at h₂
      dsimp only at h₂
      split at h₁
      · cases h₁
      · next bytes hbytes =>
        rw [hbytes] at h₂
        dsimp only at h₂
        split at h₁
        · cases h₁
        · next decoded hdecoded =>
          rw [hdecoded] at h₂
          have h := eq_of_constantTimeEq h₁
          rw [eq_of_constantTimeEq h₂] at h
          exact (Utf8.encode_injective h).symm

/-- The proxy with another session token. -/
def Env.withToken (env : Env) (token : String) : Env := { env with token := token }

/-- For two tokens, the upstream socket receives the same of a client that presents them. The
client's stream is some function of the token: where and how its header is written is left open, and
so is how the stream is cut into reads. -/
def Withheld (env : Env) (request : String → Client) (t₁ t₂ : String) : Prop :=
  received ((env.withToken t₁).handleConnection (request t₁)) =
    received ((env.withToken t₂).handleConnection (request t₂))

/-- A sink fails before it has taken a byte in which two texts differ. -/
def Sink.FailsWithin (s : Sink) (head₁ head₂ : List UInt8) : Prop :=
  ∃ room, s.room = some room ∧ head₁.take room = head₂.take room

/-- What is forwarded of a plain request arrives as if it were written at once. -/
theorem received_tunnel_plain (env : Env) {target : Target} (hplain : target.isConnect = false)
    (fromClient : Source) :
    received (env.tunnel target fromClient) = (env.upstream.writeAll
      (target.headerBytes ++ if env.canSplice then fromClient.bytes else [])).1 := by
  unfold Env.tunnel
  rw [hplain, if_neg (by decide)]
  have hsplice : ∀ upstream client, received (env.splice upstream client fromClient) =
      (upstream.writeAll (if env.canSplice then fromClient.bytes else [])).1 := by
    intro upstream client
    unfold Env.splice
    split
    · simp [received]
    · cases hroom : upstream.room <;> simp [received, Sink.writeAll, hroom]
  have hcons : ∀ sent events, received (.toUpstream sent :: events) = sent ++ received events :=
    fun _ _ => rfl
  cases hroom : env.upstream.room with
  | none =>
    have hwrite : ∀ bytes, env.upstream.writeAll bytes = (bytes, some env.upstream) := by
      intro bytes
      simp only [Sink.writeAll, hroom]
    rw [hwrite, hwrite]
    dsimp only
    rw [hcons, hsplice, hwrite]
  | some room =>
    simp only [Sink.writeAll, hroom]
    split
    · next sent hwrite =>
      obtain ⟨rfl, hnone⟩ := Prod.mk.inj hwrite
      have hfull : ¬target.headerBytes.length ≤ room := fun hle => by simp [hle] at hnone
      rw [List.take_append_of_le_length (by omega)]
      simp [received]
    · next sent upstream hwrite =>
      obtain ⟨rfl, hsome⟩ := Prod.mk.inj hwrite
      have hle : target.headerBytes.length ≤ room := by
        by_contra hfull
        simp [hfull] at hsome
      rw [if_pos hle] at hsome
      obtain rfl := Option.some.inj hsome
      rw [hcons, hsplice, List.take_append]
      rfl

/-- Two streams of which the same arrives, and the head of one in full, have the same head. -/
theorem requestHead_eq_of_take_eq {bytes₁ bytes₂ rest₁ rest₂ : List UInt8} {room : ℕ}
    (hrest₁ : requestHead bytes₁ = bytes₁ → rest₁ = [])
    (hle : (requestHead bytes₁).length ≤ (requestHead bytes₂).length)
    (hroom : (requestHead bytes₁).length < room)
    (h : (requestHead bytes₁ ++ rest₁).take room = (requestHead bytes₂ ++ rest₂).take room) :
    requestHead bytes₁ = requestHead bytes₂ := by
  have hprefix : requestHead bytes₁ <+: requestHead bytes₂ ++ rest₂ := by
    have htake : requestHead bytes₁ <+: (requestHead bytes₁ ++ rest₁).take room :=
      List.prefix_take_iff.mpr ⟨List.prefix_append _ _, by omega⟩
    rw [h] at htake
    exact htake.trans (List.take_prefix _ _)
  obtain ⟨more, hmore⟩ := List.prefix_of_prefix_length_le hprefix (List.prefix_append _ _) hle
  rcases requestHead_cases bytes₁ with hclosed | hopen
  · have hsame := hclosed more
    rw [hmore, requestHead_requestHead] at hsame
    exact hsame.symm
  · rw [hrest₁ hopen, List.append_nil] at h
    have hlength := congrArg List.length h
    simp only [List.length_take, List.length_append] at hlength
    have hnil : more = [] := by
      have := congrArg List.length hmore
      rw [List.length_append] at this
      exact List.length_eq_zero_iff.mp (by omega)
    rw [← hmore, hnil, List.append_nil]

/-- The head of an authorized request tells its token. -/
theorem token_eq_of_requestHead_eq {env : Env} {client₁ client₂ : Client} {t₁ t₂ : String}
    {target₁ target₂ : Target} (h₁ : (env.withToken t₁).Accepts client₁ target₁)
    (h₂ : (env.withToken t₂).Accepts client₂ target₂)
    (hsame : requestHead client₁.source.bytes = requestHead client₂.source.bytes) : t₁ = t₂ := by
  obtain ⟨reader₁, hparsed₁⟩ := h₁.parsed
  obtain ⟨reader₂, hparsed₂⟩ := h₂.parsed
  have htarget := readTarget_eq hsame hparsed₁ hparsed₂
  subst htarget
  exact authorized_unique h₁.isAuthorized h₂.isAuthorized

/-- What the upstream socket receives of an accepted plain request: its head and then what was still
unread, which is nothing when the stream ends with the head. -/
theorem Env.Accepts.received_plain {env : Env} {client : Client} {target : Target}
    (h : env.Accepts client target) (hplain : target.isConnect = false) :
    ∃ rest, (requestHead client.source.bytes = client.source.bytes → rest = []) ∧
      received (env.handleConnection client) =
        (env.upstream.writeAll (requestHead client.source.bytes ++ rest)).1 := by
  obtain ⟨reader, hparsed⟩ := h.parsed
  obtain ⟨hhead, hat⟩ := readTarget_head hparsed
  refine ⟨if env.canSplice then reader.source.bytes else [], fun hall => ?_, ?_⟩
  · have hbytes := hat.bytes
    rw [hhead, hall] at hbytes
    have hnil : reader.bytes = [] := by simpa using hbytes
    have hsource := (List.append_eq_nil_iff.mp hnil).2
    rw [hsource, ite_self]
  · rw [h.received_eq hparsed, received_tunnel_plain env hplain, hhead]

/-- Exactly when two runs of a plain request look the same upstream: the tokens are the same, or the
socket failed before a difference of the heads was written. -/
theorem withheld_iff {env : Env} {request : String → Client} {t₁ t₂ : String}
    {target₁ target₂ : Target} (h₁ : (env.withToken t₁).Accepts (request t₁) target₁)
    (h₂ : (env.withToken t₂).Accepts (request t₂) target₂) (hplain₁ : target₁.isConnect = false)
    (hplain₂ : target₂.isConnect = false) :
    Withheld env request t₁ t₂ ↔ t₁ = t₂ ∨ env.upstream.FailsWithin
      (requestHead (request t₁).source.bytes) (requestHead (request t₂).source.bytes) := by
  obtain ⟨rest₁, hrest₁, hreceived₁⟩ := h₁.received_plain hplain₁
  obtain ⟨rest₂, hrest₂, hreceived₂⟩ := h₂.received_plain hplain₂
  change _ = (env.upstream.writeAll _).1 at hreceived₁ hreceived₂
  have htoken := token_eq_of_requestHead_eq h₁ h₂
  have hsame : t₁ = t₂ → Withheld env request t₁ t₂ := by
    rintro rfl
    rfl
  unfold Withheld Sink.FailsWithin at *
  rw [hreceived₁, hreceived₂] at *
  generalize (request t₁).source.bytes = bytes₁ at *
  generalize (request t₂).source.bytes = bytes₂ at *
  -- As soon as all of one head arrives, a common part is a common head.
  have hheads : ∀ room, (requestHead bytes₁).length < room ∨ (requestHead bytes₂).length < room →
      (requestHead bytes₁ ++ rest₁).take room = (requestHead bytes₂ ++ rest₂).take room →
      requestHead bytes₁ = requestHead bytes₂ := by
    intro room hroom htake
    rcases Nat.le_total (requestHead bytes₁).length (requestHead bytes₂).length with hle | hle
    · exact requestHead_eq_of_take_eq hrest₁ hle (by omega) htake
    · exact (requestHead_eq_of_take_eq hrest₂ hle (by omega) htake.symm).symm
  cases hroom : env.upstream.room with
  | none =>
    simp only [Sink.writeAll, hroom] at hsame ⊢
    refine ⟨fun h => Or.inl (htoken (hheads _ (Or.inl (Nat.lt_succ_self _)) (by rw [h]))), ?_⟩
    rintro (heq | ⟨room, hsome, -⟩)
    · exact hsame heq
    · cases hsome
  | some room =>
    simp only [Sink.writeAll, hroom] at hsame ⊢
    by_cases hshort : (requestHead bytes₁).length < room ∨ (requestHead bytes₂).length < room
    · refine ⟨fun h => Or.inl (htoken (hheads room hshort h)), ?_⟩
      rintro (heq | ⟨room', hsome, htake⟩)
      · exact hsame heq
      · obtain rfl := Option.some.inj hsome
        refine hsame (htoken ?_)
        have hlength := congrArg List.length htake
        rw [List.length_take, List.length_take] at hlength
        rwa [List.take_of_length_le (by omega), List.take_of_length_le (by omega)] at htake
    · rw [List.take_append_of_le_length (by omega), List.take_append_of_le_length (by omega)] at *
      refine ⟨fun h => Or.inr ⟨room, rfl, h⟩, ?_⟩
      rintro (heq | ⟨room', hsome, htake⟩)
      · exact hsame heq
      · obtain rfl := Option.some.inj hsome
        exact htake

/-- The proxy with a decoder that knows the credentials of two tokens. -/
def twoTokens (upstream : Sink) : Env :=
  { sampleEnv with
    base64Decode := fun s =>
      if s = "c2VjcmV0Og==" then some (Utf8.encode "secret:")
      else if s = "cHVibGljOg==" then some (Utf8.encode "public:")
      else none
    upstream := upstream }

/-- The head of a plain request with the credential of the token `secret`. -/
def secretHead : String :=
  "GET http://example.com/ HTTP/1.1\r\nproxy-authorization: Basic c2VjcmV0Og==\r\n\r\n"

/-- The same with that of the token `public`. -/
def publicHead : String :=
  "GET http://example.com/ HTTP/1.1\r\nproxy-authorization: Basic cHVibGljOg==\r\n\r\n"

/-- A plain request that presents one of these tokens. -/
def sampleRequest (token : String) : Client where
  source :=
    if token = "secret" then ⟨[⟨Utf8.encode secretHead, by decide, by decide⟩], .eof⟩
    else ⟨[⟨Utf8.encode publicHead, by decide, by decide⟩], .eof⟩
  dupErrno := none

/-- What these requests ask for. -/
def plainTarget (head credential : String) : Target :=
  ⟨false, "example.com", 80, Utf8.encode head, some ("Basic " ++ credential)⟩

/-- An upstream socket that takes the request line only learns nothing. -/
theorem withheld_iff_requestLine :
    Withheld (twoTokens ⟨some 34⟩) sampleRequest "secret" "public" := by
  have hsecret : ((twoTokens ⟨some 34⟩).withToken "secret").Accepts (sampleRequest "secret")
      (plainTarget secretHead "c2VjcmV0Og==") :=
    ⟨⟨⟨[], ⟨[], .eof⟩⟩, by decide +kernel⟩, by decide +kernel, by decide +kernel, by decide +kernel⟩
  have hpublic : ((twoTokens ⟨some 34⟩).withToken "public").Accepts (sampleRequest "public")
      (plainTarget publicHead "cHVibGljOg==") :=
    ⟨⟨⟨[], ⟨[], .eof⟩⟩, by decide +kernel⟩, by decide +kernel, by decide +kernel, by decide +kernel⟩
  refine (withheld_iff hsecret hpublic rfl rfl).mpr (Or.inr ⟨34, rfl, ?_⟩)
  decide +kernel

/-- The token arrives at an upstream socket that takes the whole head. -/
theorem not_withheld_secret :
    received (((twoTokens ⟨none⟩).withToken "secret").handleConnection (sampleRequest "secret")) =
      Utf8.encode secretHead ∧
    received (((twoTokens ⟨none⟩).withToken "public").handleConnection (sampleRequest "public")) =
      Utf8.encode publicHead ∧
    ¬Withheld (twoTokens ⟨none⟩) sampleRequest "secret" "public" := by
  have hsecret : received (((twoTokens ⟨none⟩).withToken "secret").handleConnection
      (sampleRequest "secret")) = Utf8.encode secretHead := by decide +kernel
  have hpublic : received (((twoTokens ⟨none⟩).withToken "public").handleConnection
      (sampleRequest "public")) = Utf8.encode publicHead := by decide +kernel
  refine ⟨hsecret, hpublic, fun hsame => ?_⟩
  rw [Withheld, hsecret, hpublic] at hsame
  revert hsame
  decide +kernel

end Devcroft.Proxy
