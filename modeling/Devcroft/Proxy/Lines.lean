import Devcroft.Proxy.Request

/-!
# What a parsed request can contain

A request is read line by line, so no text taken from it has a newline in it: not the
host that it names, and not the error that refuses it. The header loop is treated
once, by the invariant rule `readHeaders_invariant`.
-/

namespace Devcroft.Proxy

open Buffered

/-- Every line that is read has its only newline at the end. -/
theorem readCappedLine_isLine {strerror : ℕ → String} {reader : Reader} {budget : ℕ}
    {line : CappedLine} (h : readCappedLine strerror reader budget = .ok line) :
    Text.IsLine line.out := by
  obtain ⟨-, hread, -⟩ := readCappedLine_spec h
  intro before after hcut
  refine Utf8.eq_end_of_newline_mem ?_ hcut
  rw [(readUntil_eq_piece hread).1]
  exact not_mem_dropLast_piece _ _ _

/-- What each line of the header loop preserves, the whole loop preserves. -/
theorem readHeaders_invariant {strerror : ℕ → String} (Holds : Head → Reader → Prop)
    (hline : ∀ head reader budget line, readCappedLine strerror reader budget = .ok line →
      Holds head reader → Holds (head.addBytes line.out) line.reader)
    (hheader : ∀ head reader (line : String), Text.IsLine line → Holds head reader →
      Holds (head.addHeader line) reader)
    {reader reader' : Reader} {budget : ℕ} {head head' : Head} (hinit : Holds head reader)
    (h : readHeaders strerror reader budget head = .ok (head', reader')) :
    Holds head' reader' := by
  fun_induction readHeaders strerror reader budget head with
  | case1 reader budget head e hread => cases h
  | case2 reader budget head line hread hend =>
    simp only [Except.ok.injEq, Prod.mk.injEq] at h
    obtain ⟨rfl, rfl⟩ := h
    exact hline _ _ _ _ hread hinit
  | case3 reader budget head line hread hend ih =>
    exact ih (hheader _ _ _ (readCappedLine_isLine hread) (hline _ _ _ _ hread hinit)) h

/-- The host header that was collected has no newline in it. -/
def Head.HostClean (head : Head) : Prop := ∀ host, head.hostHeader = some host → '\n' ∉ host.toList

/-- Recording a header line keeps the collected host clean. -/
theorem Head.HostClean.addHeader {head : Head} (h : head.HostClean) {line : String}
    (hline : Text.IsLine line) : (head.addHeader line).HostClean := by
  unfold Head.addHeader
  split
  · exact h
  · next name value hcut =>
    split
    · intro host hhost
      obtain rfl := Option.some.inj hhost
      refine Text.IsLine.newline_notMem_trim (hline.suffix ?_)
      obtain ⟨hs, -⟩ := Text.splitOnce_eq_some hcut
      exact ⟨name.toList ++ [':'], by simp [hs]⟩
    · split <;> exact h

/-- A host that is split off an authority is part of it. -/
theorem infix_of_splitHostPort {authority host : String} {defaultPort port : UInt16}
    (h : splitHostPort authority defaultPort = .ok (host, port)) :
    host.toList <:+: authority.toList := by
  unfold splitHostPort at h
  dsimp only at h
  split at h
  · next rest hrest =>
    obtain rfl := Text.stripPrefix_eq_some_iff.mp hrest
    split at h
    · cases h
    · next host' tail hcut =>
      have hhost : host'.toList <:+: ("[" ++ rest).toList := by
        obtain ⟨hs, -⟩ := Text.splitOnce_eq_some hcut
        exact ⟨['['], ']' :: tail.toList, by simp [hs]⟩
      split at h
      · split at h
        · simp only [Except.ok.injEq, Prod.mk.injEq] at h
          exact h.1 ▸ hhost
        · cases h
      · simp only [Except.ok.injEq, Prod.mk.injEq] at h
        exact h.1 ▸ hhost
  · split at h
    · next host' p hcut =>
      split at h
      · split at h
        · simp only [Except.ok.injEq, Prod.mk.injEq] at h
          obtain ⟨hs, -⟩ := Text.rsplitOnce_eq_some hcut
          exact ⟨[], ':' :: p.toList, by simp [← h.1, hs]⟩
        · cases h
      · simp only [Except.ok.injEq, Prod.mk.injEq] at h
        exact h.1 ▸ List.infix_rfl
    · simp only [Except.ok.injEq, Prod.mk.injEq] at h
      exact h.1 ▸ List.infix_rfl

/-- The host of a target is part of the request's target or of the collected host header. -/
theorem targetOf_host {method targetStr : String} {head : Head} {target : Target}
    (h : targetOf method targetStr head = .ok target) (hclean : head.HostClean)
    (htarget : '\n' ∉ targetStr.toList) : '\n' ∉ target.host.toList := by
  unfold targetOf at h
  split at h
  · split at h
    · cases h
    · next host port hsplit =>
      obtain rfl := Except.ok.inj h
      exact fun hmem => htarget ((infix_of_splitHostPort hsplit).subset hmem)
  · split at h
    · cases h
    · next authority hauthority =>
      have hnew : '\n' ∉ authority.toList := by
        unfold authorityOf at hauthority
        split at hauthority
        · next rest hrest =>
          obtain rfl := Except.ok.inj hauthority
          have hsuffix : rest.toList <:+ targetStr.toList := by
            rcases Option.or_eq_some_iff.mp hrest with hrest | ⟨-, hrest⟩ <;>
              rw [Text.stripPrefix_eq_some_iff.mp hrest, String.toList_append] <;>
              exact List.suffix_append _ _
          exact fun hmem => htarget (hsuffix.subset ((Text.splitFirst_isPrefix _ _).subset hmem))
        · split at hauthority
          · next host hhost =>
            obtain rfl := Except.ok.inj hauthority
            exact hclean _ hhost
          · cases hauthority
      split at h
      · cases h
      · next host port hsplit =>
        obtain rfl := Except.ok.inj h
        exact fun hmem => hnew ((infix_of_splitHostPort hsplit).subset hmem)

/-- Everything a successful `read_target` says about how it got its target. -/
theorem readTarget_eq_some {strerror : ℕ → String} {client : Client} {target : Target}
    {reader : Reader} (h : readTarget strerror client = .ok (some (target, reader))) :
    ∃ line method targetStr rest head,
      readCappedLine strerror (Reader.new client.source) MAX_HEADER_BYTES = .ok line ∧
      line.n ≠ 0 ∧ Text.splitn ' ' 3 (Text.trimEnd line.out) = method :: targetStr :: rest ∧
      readHeaders strerror line.reader line.budget ⟨Utf8.encode line.out, none, none⟩ =
        .ok (head, reader) ∧
      targetOf method targetStr head = .ok target := by
  unfold readTarget at h
  split at h
  · cases h
  · split at h
    · cases h
    · next line hline =>
      split at h
      · cases h
      · next hn =>
        split at h
        · next method targetStr rest hpieces =>
          split at h
          · cases h
          · next head reader' hheaders =>
            split at h
            · cases h
            · next target' htarget =>
              simp only [Except.ok.injEq, Option.some.injEq, Prod.mk.injEq] at h
              obtain ⟨rfl, rfl⟩ := h
              exact ⟨line, method, targetStr, rest, head, hline, hn, hpieces, hheaders, htarget⟩
        · cases h

/-- Nothing is read exactly of a stream that is at its end. -/
theorem readTarget_eq_none {strerror : ℕ → String} {client : Client}
    (h : readTarget strerror client = .ok none) :
    ∃ line, readCappedLine strerror (Reader.new client.source) MAX_HEADER_BYTES = .ok line ∧
      line.n = 0 := by
  unfold readTarget at h
  split at h
  · cases h
  · split at h
    · cases h
    · next line hline =>
      split at h
      · next hn => exact ⟨line, hline, hn⟩
      · split at h
        · split at h
          · cases h
          · split at h <;> cases h
        · cases h

/-- The host of a request has no newline in it. -/
theorem readTarget_host {strerror : ℕ → String} {client : Client} {target : Target}
    {reader : Reader} (h : readTarget strerror client = .ok (some (target, reader))) :
    '\n' ∉ target.host.toList := by
  obtain ⟨line, method, targetStr, rest, head, hline, -, hpieces, hheaders, htarget⟩ :=
    readTarget_eq_some h
  have hpiece : targetStr ∈ Text.splitn ' ' 3 (Text.trimEnd line.out) := by simp [hpieces]
  have hclean : head.HostClean :=
    readHeaders_invariant (fun head _ => head.HostClean) (fun _ _ _ _ _ hclean => hclean)
      (fun _ _ _ hisLine hclean => hclean.addHeader hisLine) (fun _ hhost => by cases hhost)
      hheaders
  refine targetOf_host htarget hclean fun hmem => ?_
  exact (readCappedLine_isLine hline).newline_notMem_trimEnd
    ((Text.infix_of_mem_splitn hpiece).subset hmem)

/-- An error that does not come from the operating system displays without a newline. -/
def IoError.Clean (e : IoError) : Prop := e.kind = .invalidData → '\n' ∉ e.text.toList

private theorem readCappedLine_error {strerror : ℕ → String} {reader : Reader} {budget : ℕ}
    {e : IoError} (h : readCappedLine strerror reader budget = .error e) : e.Clean := by
  unfold readCappedLine readLine at h
  split at h
  · obtain rfl := Except.error.inj h
    exact fun _ => by decide
  · cases hread : reader.readUntil Utf8.newline budget with
    | error errno =>
      simp only [hread] at h
      obtain rfl := Except.error.inj h
      exact fun hkind => by cases hkind
    | ok result =>
      obtain ⟨bytes, reader'⟩ := result
      cases hdecode : Utf8.decode bytes with
      | none =>
        simp only [hread, hdecode] at h
        obtain rfl := Except.error.inj h
        exact fun _ => by decide
      | some out =>
        simp only [hread, hdecode] at h
        split at h
        · obtain rfl := Except.error.inj h
          exact fun _ => by decide
        · cases h

private theorem readHeaders_error {strerror : ℕ → String} {reader : Reader} {budget : ℕ}
    {head : Head} {e : IoError} (h : readHeaders strerror reader budget head = .error e) :
    e.Clean := by
  fun_induction readHeaders strerror reader budget head with
  | case1 reader budget head e' hread =>
    obtain rfl := Except.error.inj h
    exact readCappedLine_error hread
  | case2 reader budget head line hread hend => cases h
  | case3 reader budget head line hread hend ih => exact ih h

private theorem splitHostPort_error {authority : String} {defaultPort : UInt16} {e : IoError}
    (h : splitHostPort authority defaultPort = .error e) : e = invalidData "invalid host:port" := by
  unfold splitHostPort at h
  dsimp only at h
  grind

private theorem targetOf_error {method targetStr : String} {head : Head} {e : IoError}
    (h : targetOf method targetStr head = .error e) : e.Clean := by
  have hport : (invalidData "invalid host:port").Clean := fun _ => by decide
  unfold targetOf at h
  split at h
  · split at h
    · next hsplit =>
      obtain rfl := Except.error.inj h
      exact splitHostPort_error hsplit ▸ hport
    · cases h
  · split at h
    · next hauthority =>
      obtain rfl := Except.error.inj h
      unfold authorityOf at hauthority
      split at hauthority
      · cases hauthority
      · split at hauthority
        · cases hauthority
        · obtain rfl := Except.error.inj hauthority
          exact fun _ => by decide
    · split at h
      · next hsplit =>
        obtain rfl := Except.error.inj h
        exact splitHostPort_error hsplit ▸ hport
      · cases h

/-- An error of `read_target` that does not come from the operating system has no newline. -/
theorem readTarget_error {strerror : ℕ → String} {client : Client} {e : IoError}
    (h : readTarget strerror client = .error e) : e.Clean := by
  unfold readTarget at h
  split at h
  · obtain rfl := Except.error.inj h
    exact fun hkind => by cases hkind
  · split at h
    · next hline =>
      obtain rfl := Except.error.inj h
      exact readCappedLine_error hline
    · split at h
      · cases h
      · split at h
        · split at h
          · next hheaders =>
            obtain rfl := Except.error.inj h
            exact readHeaders_error hheaders
          · split at h
            · next htarget =>
              obtain rfl := Except.error.inj h
              exact targetOf_error htarget
            · cases h
        · obtain rfl := Except.error.inj h
          exact fun _ => by decide

end Devcroft.Proxy
