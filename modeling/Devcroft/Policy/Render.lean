import Devcroft.Library.Decimal
import Devcroft.Library.Report
import Devcroft.Policy.Denials

/-!
# The rendered policy

`policy --render` shows every rule of a compiled policy with its origin. Two sandboxes for which it
shows the same have the same policy, so that nothing that is applied can stay unseen.
-/

namespace Devcroft.Policy

open Config Paths Report

/-- A rule as it is shown. -/
def AnnotatedValue.line (v : AnnotatedValue) : String :=
  "  " ++ (padRight 40 v.value ++ " " ++ v.origin.display)

/-- A port as it is shown. -/
def AnnotatedPort.line (port : AnnotatedPort) : String :=
  AnnotatedValue.line ⟨Nat.repr port.value.toNat, port.origin⟩

/-- The lines of a section, or one that says that there are none. -/
def orNone (lines : List String) : List String := if lines.isEmpty then ["  (none)"] else lines

/-- `render_section`. -/
def renderSection (title : String) (values : List AnnotatedValue) : Part :=
  (title ++ ":", orNone (values.map AnnotatedValue.line))

/-- `namespace_summary`. -/
def CompiledPolicy.namespaceSummary (p : CompiledPolicy) : String :=
  if p.networkBlock = false then "shared with the host (network.default = \"allow\")"
  else if p.networkPorts.isEmpty = false then
    "own (declared ports are reachable inside the sandbox and via " ++
      "`ssh -L <local>:127.0.0.1:<port> <name>.devcroft`, not on the host's loopback)"
  else "own (denies UDP, which Landlock's TCP-only network rules do not)"

/-- The egress proxy's address once it runs, or whether one is asked for. -/
def CompiledPolicy.proxyStatus (p : CompiledPolicy) : String :=
  match p.networkProxyPort with
  | some port => "127.0.0.1:" ++ (Nat.repr port.toNat ++ " (running)")
  | none =>
    if p.wantsEgressProxy then "requested, not yet started (run `up`)" else "not requested"

/-- What is shown of a policy, heading by heading. -/
def CompiledPolicy.parts (p : CompiledPolicy) : List Part :=
  [("sandbox: " ++ p.sandboxName, []), ("", []),
    renderSection "filesystem.allow" p.filesystemAllow,
    renderSection "filesystem.read" p.filesystemRead,
    renderSection "filesystem.deny" p.filesystemDeny, ("", []),
    ("network.block: " ++ (if p.networkBlock then "true" else "false"), []),
    renderSection "network.allow_domain" p.networkAllowDomain,
    ("network.ports:", orNone (p.networkPorts.map AnnotatedPort.line)),
    ("network.namespace: " ++ p.namespaceSummary, [])] ++
  (if p.unixSocketBind.isEmpty then []
    else [("unix_socket.bind:", p.unixSocketBind.map AnnotatedValue.line)]) ++
  [("network.proxy: " ++ p.proxyStatus, [])]

/-- `render`. -/
def CompiledPolicy.render (p : CompiledPolicy) : String := text (lines p.parts)

section Legibility

/-- An origin is one word. -/
def Origin.Plain (origin : Origin) : Prop :=
  ' ' ∉ origin.display.toList ∧ '\n' ∉ origin.display.toList

/-- A value is on one line, and does not end in a blank. -/
def PlainText (s : String) : Prop := '\n' ∉ s.toList ∧ NoBlankEnd s

instance (s : String) : Decidable (PlainText s) := inferInstanceAs (Decidable (_ ∧ _))

instance (origin : Origin) : Decidable origin.Plain := inferInstanceAs (Decidable (_ ∧ _))

/-- All texts of a policy are such. -/
structure CompiledPolicy.Legible (p : CompiledPolicy) : Prop where
  name : '\n' ∉ p.sandboxName.toList
  values : ∀ v ∈ p.filesystemAllow ++ p.filesystemRead ++ p.filesystemDeny ++
    p.networkAllowDomain ++ p.unixSocketBind, PlainText v.value ∧ v.origin.Plain
  ports : ∀ port ∈ p.networkPorts, port.origin.Plain
  /-- The only one there is. -/
  signal : p.signalMode = SIGNAL_MODE

variable {v w : AnnotatedValue}

/-- Origins are told apart by what is shown of them. -/
theorem Origin.display_injective {a b : Origin} (h : a.display = b.display) : a = b := by
  have hlist := congrArg String.toList h
  cases a with
  | manifest key =>
    cases b with
    | manifest key' =>
      simp only [Origin.display, String.toList_append] at hlist
      rw [Text.ext (List.append_cancel_left hlist)]
    | provider name => simp [Origin.display] at hlist
    | baseline => simp [Origin.display] at hlist
  | provider name =>
    cases b with
    | manifest key => simp [Origin.display] at hlist
    | provider name' =>
      simp only [Origin.display, String.toList_append] at hlist
      rw [Text.ext (List.append_cancel_left hlist)]
    | baseline => simp [Origin.display] at hlist
  | baseline =>
    cases b with
    | manifest key => simp [Origin.display] at hlist
    | provider name => simp [Origin.display] at hlist
    | baseline => rfl

/-- Rules are told apart by what is shown of them. -/
theorem AnnotatedValue.line_injective (hv : NoBlankEnd v.value) (hw : NoBlankEnd w.value)
    (hv' : v.origin.Plain) (hw' : w.origin.Plain) (h : v.line = w.line) : v = w := by
  have hcolumns := (String.append_right_inj _).mp h
  obtain ⟨hvalue, horigin⟩ := columns_unique hv hw hv'.1 hw'.1 hcolumns
  obtain ⟨value, origin⟩ := v
  obtain ⟨value', origin'⟩ := w
  rw [show value = value' from hvalue, show origin = origin' from Origin.display_injective horigin]

/-- No rule looks like the line that says that there are none. -/
theorem AnnotatedValue.line_ne_none (v : AnnotatedValue) : v.line ≠ "  (none)" := by
  intro h
  have hwide : 40 ≤ (padRight 40 v.value).length := le_length_padRight 40 v.value
  have hlength : v.line.length = 8 := congrArg String.length h
  rw [line, String.length_append, String.length_append, String.length_append] at hlength
  omega

/-- What is shown of the rules of a section tells them. -/
theorem orNone_injective {α : Type} {f : α → String} {a b : List α}
    (hnone : ∀ x, f x ≠ "  (none)") (hf : ∀ x ∈ a, ∀ y ∈ b, f x = f y → x = y)
    (h : orNone (a.map f) = orNone (b.map f)) : a = b := by
  cases a with
  | nil =>
    cases b with
    | nil => rfl
    | cons y b => exact (hnone y (List.cons.inj h).1.symm).elim
  | cons x a =>
    cases b with
    | nil => exact (hnone x (List.cons.inj h).1).elim
    | cons y b => exact map_injective_on hf h

/-- A number that is printed has digits only. -/
theorem plain_repr (n : ℕ) : PlainText (Nat.repr n) := by
  have hdecimal : Text.IsDecimal (Nat.repr n) n := Text.isDecimal_toString n
  constructor
  · exact hdecimal.notMem (by decide)
  · intro hlast
    exact hdecimal.notMem (c := ' ') (by decide) (List.mem_of_getLast? hlast)

/-- Ports are told apart by what is shown of them. -/
theorem AnnotatedPort.line_injective {a b : AnnotatedPort} (ha : a.origin.Plain)
    (hb : b.origin.Plain) (h : a.line = b.line) : a = b := by
  have heq : (⟨Nat.repr a.value.toNat, a.origin⟩ : AnnotatedValue) =
      ⟨Nat.repr b.value.toNat, b.origin⟩ :=
    AnnotatedValue.line_injective (plain_repr _).2 (plain_repr _).2 ha hb h
  obtain ⟨hvalue, horigin⟩ := AnnotatedValue.mk.inj heq
  obtain ⟨value, origin⟩ := a
  obtain ⟨value', origin'⟩ := b
  rw [show origin = origin' from horigin,
    show value = value' from UInt16.toNat_inj.mp (Text.repr_injective hvalue)]

/-- What is shown of a running proxy does not look like there is none. -/
theorem head_proxyStatus (p : CompiledPolicy) :
    p.proxyStatus.toList.head? = some '1' ↔ p.networkProxyPort.isSome = true := by
  unfold CompiledPolicy.proxyStatus
  cases p.networkProxyPort with
  | some port =>
    simp
  | none =>
    cases p.wantsEgressProxy <;> decide

/-- What is shown of the egress proxy tells its port. -/
theorem proxyPort_unique {p q : CompiledPolicy} (h : p.proxyStatus = q.proxyStatus) :
    p.networkProxyPort = q.networkProxyPort := by
  have hsome : p.networkProxyPort.isSome = true ↔ q.networkProxyPort.isSome = true := by
    rw [← head_proxyStatus, h, head_proxyStatus]
  unfold CompiledPolicy.proxyStatus at h
  cases hp : p.networkProxyPort with
  | none =>
    rw [hp] at hsome
    have hnone : ¬q.networkProxyPort.isSome = true := fun hq => nomatch hsome.mpr hq
    exact (Option.not_isSome_iff_eq_none.mp hnone).symm
  | some port =>
    rw [hp] at hsome h
    obtain ⟨port', hq⟩ := Option.isSome_iff_exists.mp (hsome.mp rfl)
    rw [hq] at h ⊢
    have hnumber := (String.append_left_inj _).mp ((String.append_right_inj _).mp h)
    rw [UInt16.toNat_inj.mp (Text.repr_injective hnumber)]

/-- A line that does not begin with a blank is not indented. -/
theorem not_indented {line : String} (h : line.toList.head? ≠ some ' ') : ¬Indented line := by
  intro hindented
  obtain ⟨rest, rfl⟩ := Text.startsWith_iff.mp hindented
  exact h (by simp)

/-- A rule is one line. -/
theorem AnnotatedValue.newline_notMem_line (hv : '\n' ∉ v.value.toList) (ho : v.origin.Plain) :
    '\n' ∉ v.line.toList := by
  simp only [line, padRight, String.toList_append, String.toList_ofList, List.mem_append]
  rintro (h | ((h | h) | h) | h)
  · simp at h
  · exact hv h
  · simp at h
  · simp at h
  · exact ho.2 h

/-- A heading with nothing below it. -/
theorem readable_heading {line : String} (h : line.toList.head? ≠ some ' ')
    (hline : '\n' ∉ line.toList) : Part.Readable (line, []) where
  heading := not_indented h
  below := fun _ hmem => nomatch hmem
  single := fun other hmem => by
    obtain rfl := List.mem_singleton.mp hmem
    exact hline

/-- Rules below their heading. -/
theorem readable_rules {title : String} {lines : List String} (h : title.toList.head? ≠ some ' ')
    (htitle : '\n' ∉ title.toList)
    (hlines : ∀ line ∈ lines, Indented line ∧ '\n' ∉ line.toList) :
    Part.Readable (title, lines) where
  heading := not_indented h
  below := fun line hline => (hlines line hline).1
  single := by
    intro line hline
    rcases List.mem_cons.mp hline with rfl | hline
    · exact htitle
    · exact (hlines line hline).2

/-- A section says at least that it is empty. -/
theorem forall_orNone {lines : List String}
    (h : ∀ line ∈ lines, Indented line ∧ '\n' ∉ line.toList) :
    ∀ line ∈ orNone lines, Indented line ∧ '\n' ∉ line.toList := by
  unfold orNone
  split
  · intro line hline
    obtain rfl := List.mem_singleton.mp hline
    decide
  · exact h

/-- The lines of rules. -/
theorem forall_values {values : List AnnotatedValue}
    (h : ∀ v ∈ values, PlainText v.value ∧ v.origin.Plain) :
    ∀ line ∈ values.map AnnotatedValue.line, Indented line ∧ '\n' ∉ line.toList := by
  intro line hline
  obtain ⟨v, hv, rfl⟩ := List.mem_map.mp hline
  exact ⟨Text.startsWith_iff.mpr ⟨_, rfl⟩,
    AnnotatedValue.newline_notMem_line (h v hv).1.1 (h v hv).2⟩

/-- The lines of ports. -/
theorem forall_ports {ports : List AnnotatedPort} (h : ∀ port ∈ ports, port.origin.Plain) :
    ∀ line ∈ ports.map AnnotatedPort.line, Indented line ∧ '\n' ∉ line.toList := by
  intro line hline
  obtain ⟨port, hport, rfl⟩ := List.mem_map.mp hline
  exact ⟨Text.startsWith_iff.mpr ⟨_, rfl⟩,
    AnnotatedValue.newline_notMem_line (plain_repr _).1 (h port hport)⟩

theorem newline_notMem_namespaceSummary (p : CompiledPolicy) :
    '\n' ∉ p.namespaceSummary.toList := by
  unfold CompiledPolicy.namespaceSummary
  split
  · decide
  · split <;> decide +kernel

theorem newline_notMem_proxyStatus (p : CompiledPolicy) : '\n' ∉ p.proxyStatus.toList := by
  unfold CompiledPolicy.proxyStatus
  cases p.networkProxyPort with
  | some port =>
    simp only [String.toList_append, List.mem_append, not_or]
    exact ⟨by decide, (plain_repr _).1, by decide⟩
  | none => cases p.wantsEgressProxy <;> decide

/-- What is shown of a policy can be read back. -/
theorem readable_parts {p : CompiledPolicy} (hp : p.Legible) : ∀ part ∈ p.parts, part.Readable := by
  have hvalues := hp.values
  simp only [List.forall_mem_append] at hvalues
  obtain ⟨⟨⟨⟨hallow, hread⟩, hdeny⟩, hdomains⟩, hsockets⟩ := hvalues
  have hsection {title : String} {values : List AnnotatedValue}
      (h : (title ++ ":").toList.head? ≠ some ' ') (htitle : '\n' ∉ (title ++ ":").toList)
      (hvalues : ∀ v ∈ values, PlainText v.value ∧ v.origin.Plain) :
      (renderSection title values).Readable :=
    readable_rules h htitle (forall_orNone (forall_values hvalues))
  unfold CompiledPolicy.parts
  simp only [List.forall_mem_append, List.forall_mem_cons]
  refine ⟨⟨⟨?_, ?_, ?_, ?_, ?_, ?_, ?_, ?_, ?_, ?_, fun _ h => nomatch h⟩, ?_⟩, ?_,
    fun _ h => nomatch h⟩
  · apply readable_heading (by simp)
    simpa using hp.name
  · exact readable_heading (by decide) (by decide)
  · exact hsection (by decide) (by decide) hallow
  · exact hsection (by decide) (by decide) hread
  · exact hsection (by decide) (by decide) hdeny
  · exact readable_heading (by decide) (by decide)
  · cases p.networkBlock <;> exact readable_heading (by decide) (by decide)
  · exact hsection (by decide) (by decide) hdomains
  · exact readable_rules (by decide) (by decide) (forall_orNone (forall_ports hp.ports))
  · apply readable_heading (by simp)
    rw [String.toList_append, List.mem_append, not_or]
    exact ⟨by decide, newline_notMem_namespaceSummary p⟩
  · split
    · exact fun _ h => nomatch h
    · intro part hpart
      obtain rfl := List.mem_singleton.mp hpart
      exact readable_rules (by decide) (by decide) (forall_values hsockets)
  · apply readable_heading (by simp)
    rw [String.toList_append, List.mem_append, not_or]
    exact ⟨by decide, newline_notMem_proxyStatus p⟩

/-- Rules that are shown alike are the same rules. -/
theorem values_unique {a b : List AnnotatedValue}
    (ha : ∀ v ∈ a, PlainText v.value ∧ v.origin.Plain)
    (hb : ∀ v ∈ b, PlainText v.value ∧ v.origin.Plain) :
    ∀ v ∈ a, ∀ w ∈ b, v.line = w.line → v = w := fun v hv w hw =>
  AnnotatedValue.line_injective (ha v hv).1.2 (hb w hw).1.2 (ha v hv).2 (hb w hw).2

/-- A section that is left out when it is empty. -/
theorem optional_unique {title : String} {a b : List AnnotatedValue}
    (hlines : ∀ v ∈ a, ∀ w ∈ b, v.line = w.line → v = w)
    (h : (if a.isEmpty then [] else [(title, a.map AnnotatedValue.line)] : List Part) =
      if b.isEmpty then [] else [(title, b.map AnnotatedValue.line)]) : a = b := by
  cases a with
  | nil =>
    cases b with
    | nil => rfl
    | cons w b => cases h
  | cons v a =>
    cases b with
    | nil => cases h
    | cons w b => exact map_injective_on hlines (Prod.mk.inj (List.cons.inj h).1).2

/-- Two sandboxes whose rendered policy is byte-identical have the same policy, as long as no path
in it ends in a blank or goes over several lines. -/
theorem CompiledPolicy.render_eq_iff {p q : CompiledPolicy} (hp : p.Legible) (hq : q.Legible) :
    p.render = q.render ↔ p = q := by
  refine ⟨fun h => ?_, fun h => by rw [h]⟩
  have hparts := report_injective (readable_parts hp) (readable_parts hq) h
  have hvalues := hp.values
  have hvalues' := hq.values
  simp only [List.forall_mem_append] at hvalues hvalues'
  obtain ⟨⟨⟨⟨hallow, hread⟩, hdeny⟩, hdomains⟩, hsockets⟩ := hvalues
  obtain ⟨⟨⟨⟨hallow', hread'⟩, hdeny'⟩, hdomains'⟩, hsockets'⟩ := hvalues'
  have hproxy := congrArg List.getLast? hparts
  simp only [parts, List.getLast?_concat, Option.some.injEq, Prod.mk.injEq, and_true,
    String.append_right_inj] at hproxy
  simp only [parts, renderSection, List.cons_append, List.nil_append, List.cons.injEq,
    Prod.mk.injEq, true_and, and_true, String.append_right_inj, hproxy,
    List.append_left_inj] at hparts
  obtain ⟨hname, hparts⟩ := hparts
  obtain ⟨hallowLines, hreadLines, hdenyLines, hblock, hdomainLines, hportLines, -,
    hsocketLines⟩ := hparts
  have hnone := AnnotatedValue.line_ne_none
  have hblocked : p.networkBlock = q.networkBlock := by
    cases hpb : p.networkBlock <;> cases hqb : q.networkBlock <;> simp [hpb, hqb] at hblock ⊢
  have hports : p.networkPorts = q.networkPorts :=
    orNone_injective (fun port => hnone _)
      (fun a ha b hb => AnnotatedPort.line_injective (hp.ports a ha) (hq.ports b hb)) hportLines
  have hallowed : p.filesystemAllow = q.filesystemAllow :=
    orNone_injective hnone (values_unique hallow hallow') hallowLines
  have hreadable : p.filesystemRead = q.filesystemRead :=
    orNone_injective hnone (values_unique hread hread') hreadLines
  have hdenied : p.filesystemDeny = q.filesystemDeny :=
    orNone_injective hnone (values_unique hdeny hdeny') hdenyLines
  have hdomain : p.networkAllowDomain = q.networkAllowDomain :=
    orNone_injective hnone (values_unique hdomains hdomains') hdomainLines
  have hsocket : p.unixSocketBind = q.unixSocketBind :=
    optional_unique (values_unique hsockets hsockets') hsocketLines
  have hport : p.networkProxyPort = q.networkProxyPort := proxyPort_unique hproxy
  have hsignal : p.signalMode = q.signalMode := by rw [hp.signal, hq.signal]
  cases p
  cases q
  exact (CompiledPolicy.mk.injEq ..).mpr ⟨hname, hallowed, hreadable, hdenied, hblocked, hdomain,
    hports, hport, hsocket, hsignal⟩

/-- Rules of one origin. -/
theorem plain_map {origin : Origin} {values : List String} (ho : origin.Plain)
    (h : ∀ value ∈ values, PlainText value) :
    ∀ v ∈ values.map fun value => (⟨value, origin⟩ : AnnotatedValue),
      PlainText v.value ∧ v.origin.Plain := by
  intro v hv
  obtain ⟨value, hvalue, rfl⟩ := List.mem_map.mp hv
  exact ⟨h value hvalue, ho⟩

namespace CompiledPolicy

/-- What a compiled policy has from devcroft itself can be shown. -/
theorem legible_compile (platform : Platform) {manifest : Manifest}
    (hname : '\n' ∉ manifest.sandbox.name.toList)
    (hpaths : ∀ path ∈ manifest.filesystem.allow ++ manifest.filesystem.read ++
      manifest.filesystem.deny, PlainText path)
    (hdomains : ∀ domain ∈ manifest.network.allow, PlainText domain) :
    (compile platform manifest).Legible := by
  have hread : ∀ path ∈ KEEPER_SYSTEM_READ platform, PlainText path := by
    cases platform <;> decide
  have hwrite : ∀ path ∈ KEEPER_SYSTEM_READWRITE platform, PlainText path := by
    cases platform <;> decide
  have hsensitive : ∀ path ∈ SENSITIVE_PATHS, PlainText path := by decide
  have hbaseline : Origin.baseline.Plain := by decide
  simp only [List.forall_mem_append] at hpaths
  obtain ⟨⟨hallowed, hreadable⟩, hdenied⟩ := hpaths
  constructor
  · exact hname
  · simp only [compile, List.forall_mem_append, List.forall_mem_cons]
    refine ⟨⟨⟨⟨⟨?_, ?_⟩, ?_, ?_⟩, ?_, ?_, ?_⟩, ?_⟩, fun _ hmem => (List.not_mem_nil hmem).elim⟩
    · exact plain_map (by decide) hallowed
    · exact plain_map hbaseline hwrite
    · exact plain_map (by decide) hreadable
    · exact plain_map hbaseline hread
    · exact plain_map (by decide) hdenied
    · exact ⟨by decide, hbaseline⟩
    · exact plain_map hbaseline fun path hpath => hsensitive path (List.mem_of_mem_filter hpath)
    · exact plain_map (by decide) hdomains
  · intro port hport
    obtain ⟨number, -, rfl⟩ := List.mem_map.mp hport
    have hplain : (Origin.manifest "network.ports").Plain := by decide
    exact hplain
  · rfl

variable {p : CompiledPolicy}

/-- So can what the commands add to it. -/
theorem Legible.withProviderGrants (h : p.Legible) {provider : String} {grants : List String}
    (ho : (Origin.provider provider).Plain) (hgrants : ∀ path ∈ grants, PlainText path) :
    (p.withProviderGrants provider grants).Legible where
  name := h.name
  ports := h.ports
  signal := h.signal
  values := by
    have hvalues := h.values
    simp only [CompiledPolicy.withProviderGrants, List.forall_mem_append] at hvalues ⊢
    obtain ⟨⟨⟨⟨hallow, hread⟩, hdeny⟩, hdomains⟩, hsockets⟩ := hvalues
    exact ⟨⟨⟨⟨hallow, hread, plain_map ho hgrants⟩, hdeny⟩, hdomains⟩, hsockets⟩

theorem Legible.withKeeperExeGrant (h : p.Legible) {dir : String} (hdir : PlainText dir) :
    (p.withKeeperExeGrant dir).Legible where
  name := h.name
  ports := h.ports
  signal := h.signal
  values := by
    have hvalues := h.values
    simp only [CompiledPolicy.withKeeperExeGrant, List.forall_mem_append] at hvalues ⊢
    obtain ⟨⟨⟨⟨hallow, hread⟩, hdeny⟩, hdomains⟩, hsockets⟩ := hvalues
    have hbaseline : Origin.baseline.Plain := by decide
    have hgrant : ∀ v ∈ [(⟨dir, .baseline⟩ : AnnotatedValue)], PlainText v.value ∧ v.origin.Plain :=
      List.forall_mem_singleton.mpr ⟨hdir, hbaseline⟩
    exact ⟨⟨⟨⟨hallow, hread, hgrant⟩, hdeny⟩, hdomains⟩, hsockets⟩

theorem Legible.withServicesSocketGrant (h : p.Legible) {provider socket : String}
    (ho : (Origin.provider provider).Plain) (hsocket : PlainText socket) :
    (p.withServicesSocketGrant provider socket).Legible where
  name := h.name
  ports := h.ports
  signal := h.signal
  values := by
    have hvalues := h.values
    simp only [CompiledPolicy.withServicesSocketGrant, List.forall_mem_append] at hvalues ⊢
    obtain ⟨hrest, hsockets⟩ := hvalues
    exact ⟨hrest, hsockets, List.forall_mem_singleton.mpr ⟨hsocket, ho⟩⟩

theorem Legible.withProxyPort (h : p.Legible) (port : UInt16) : (p.withProxyPort port).Legible :=
  ⟨h.name, h.values, h.ports, h.signal⟩

/-- A proxy's port is seen in what is shown. -/
theorem render_eq_iff_port :
    ((compile .linux (sampleManifest ["."])).withProxyPort 8080).render ≠
      ((compile .linux (sampleManifest ["."])).withProxyPort 8081).render := by
  have hlegible : (compile .linux (sampleManifest ["."])).Legible :=
    legible_compile .linux (by decide) (by decide) (by decide)
  intro h
  have heq := (render_eq_iff (hlegible.withProxyPort 8080) (hlegible.withProxyPort 8081)).mp h
  have hport := congrArg CompiledPolicy.networkProxyPort heq
  exact absurd hport (by decide)

/-- A blank at the end of a path is not. -/
example : (compile .linux (sampleManifest ["src "])).render =
    (compile .linux (sampleManifest ["src"])).render := by
  decide +kernel

end CompiledPolicy

end Legibility

end Devcroft.Policy
