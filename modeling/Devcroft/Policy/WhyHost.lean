import Devcroft.Policy.Why
import Devcroft.Proxy.Server

/-!
# Explaining the decision about a host

`devcroft why --host` takes its verdict from the host filter that the proxy uses, which
does not tell the entry that matched. For the attribution the entry is searched for
again, by a comparison of its own: it lowers the host but not the entry.
-/

namespace Devcroft.Policy

open Config Proxy

/-- `HostFilter::new_strict`: the `check_host` of the filter for an allowlist. -/
abbrev NewStrict := List String → String → List IpAddr → FilterResult

/-- The values of an allowlist. -/
def CompiledPolicy.allowDomains (p : CompiledPolicy) : List String :=
  p.networkAllowDomain.map AnnotatedValue.value

/-- Whether an entry is taken for a wildcard that covers a host: `*` and a text that ends the
lowered host. -/
def coversSuffix (host : String) (rule : AnnotatedValue) : Bool :=
  match Text.stripPrefix "*" rule.value with
  | some suffix => Text.endsWith suffix (Text.toAsciiLowercase host)
  | none => false

/-- The entry to which an allowed host is attributed: an exact match first, then a wildcard. -/
def CompiledPolicy.attributed (p : CompiledPolicy) (host : String) : Option AnnotatedValue :=
  (p.networkAllowDomain.find? fun rule => Text.eqIgnoreAsciiCase rule.value host).or
    (p.networkAllowDomain.find? (coversSuffix host))

/-- `why_host`. -/
def whyHost (newStrict : NewStrict) (p : CompiledPolicy) (host : String) : Explanation :=
  if p.networkBlock = false then
    ⟨true, some (.manifest "network.default"), "allowed by rule manifest:network.default"⟩
  else
    let result := newStrict p.allowDomains host []
    if result.isAllowed then
      match p.attributed host with
      | some rule => ⟨true, some rule.origin, "allowed by rule " ++ rule.origin.display⟩
      | none => ⟨true, none, "allowed by the egress proxy's host filter"⟩
    else
      ⟨false, some (.manifest "network.default"),
        "denied by rule manifest:network.default (" ++ result.reason ++ ")"⟩

/-- Whether an entry matches a host, as the filter is documented to compare them: both lowered,
either equal, or the entry `*.suffix` and the host with at least one label before the suffix. -/
def Matches (lower : String → String) (entry host : String) : Prop :=
  lower entry = lower host ∨
    ∃ suffix labels, lower entry = "*." ++ suffix ∧ labels ≠ "" ∧
      lower host = labels ++ "." ++ suffix

/-- `why_host` says what the filter says, and attributes what it allows to an entry that matches. -/
structure WhyHostRight (newStrict : NewStrict) (lower : String → String) (p : CompiledPolicy)
    (host : String) : Prop where
  /-- The verdict is the filter's, with no resolved addresses. -/
  verdict : (whyHost newStrict p host).allowed = true ↔
    (newStrict p.allowDomains host []).isAllowed = true
  /-- The origin of an allowed host is that of an entry that matches it. -/
  attribution : (whyHost newStrict p host).allowed = true →
    ∃ rule ∈ p.networkAllowDomain, (whyHost newStrict p host).origin = some rule.origin ∧
      Matches lower rule.value host

/-- Where an entry is found that the allowed host can be attributed to: one that is equal to it up
to ASCII case, or else a first wildcard that covers it as written, with the origin of a matching
entry. -/
def Attributable (lower : String → String) (p : CompiledPolicy) (host : String) : Prop :=
  (∃ rule ∈ p.networkAllowDomain, Text.eqIgnoreAsciiCase rule.value host = true) ∨
    ∃ found ∈ p.networkAllowDomain.find? (coversSuffix host),
      ∃ rule ∈ p.networkAllowDomain, rule.origin = found.origin ∧ Matches lower rule.value host

variable {newStrict : NewStrict} {lower : String → String} {p : CompiledPolicy} {host : String}

/-- An entry that is equal to a host up to ASCII case matches it. -/
theorem matches_of_eqIgnoreAsciiCase (hlower : ∀ s, lower (Text.toAsciiLowercase s) = lower s)
    {entry : String} (h : Text.eqIgnoreAsciiCase entry host = true) : Matches lower entry host := by
  have hsame : Text.toAsciiLowercase entry = Text.toAsciiLowercase host := by
    simpa [Text.eqIgnoreAsciiCase] using h
  left
  rw [← hlower entry, hsame, hlower host]

/-- The verdict of `why_host` behind the network block is the filter's. -/
theorem whyHost_allowed (newStrict : NewStrict) (host : String) (hblock : p.networkBlock = true) :
    (whyHost newStrict p host).allowed = true ↔
      (newStrict p.allowDomains host []).isAllowed = true := by
  unfold whyHost
  rw [if_neg (by simp [hblock])]
  dsimp only
  split
  · next hallowed => split <;> simp [hallowed]
  · next hdenied => simp [hdenied]

/-- The origin of an allowed host is that of the entry it is attributed to. -/
theorem whyHost_origin (hblock : p.networkBlock = true)
    (hallowed : (newStrict p.allowDomains host []).isAllowed = true) :
    (whyHost newStrict p host).origin = (p.attributed host).map AnnotatedValue.origin := by
  unfold whyHost
  rw [if_neg (by simp [hblock])]
  dsimp only
  rw [if_pos hallowed]
  cases p.attributed host <;> rfl

/-- Exactly when `why_host` is right about a host: if the filter allows it, it can be attributed. -/
theorem whyHostRight_iff (hblock : p.networkBlock = true)
    (hlower : ∀ s, lower (Text.toAsciiLowercase s) = lower s) :
    WhyHostRight newStrict lower p host ↔
      ((newStrict p.allowDomains host []).isAllowed = true → Attributable lower p host) := by
  have hverdict := whyHost_allowed newStrict host hblock
  constructor
  · intro hright hallowed
    obtain ⟨rule, hrule, horigin, hmatches⟩ := hright.attribution (hverdict.mpr hallowed)
    rw [whyHost_origin hblock hallowed, Option.map_eq_some_iff] at horigin
    obtain ⟨found, hfound, hsame⟩ := horigin
    cases hexact : p.networkAllowDomain.find? fun r => Text.eqIgnoreAsciiCase r.value host with
    | some exact =>
      have heq := List.find?_some hexact
      exact Or.inl ⟨exact, List.mem_of_find?_eq_some hexact, heq⟩
    | none =>
      rw [CompiledPolicy.attributed, hexact, Option.none_or] at hfound
      exact Or.inr ⟨found, hfound, rule, hrule, hsame.symm, hmatches⟩
  · intro hattributable
    refine ⟨hverdict, fun hallowed => ?_⟩
    have hfilter := hverdict.mp hallowed
    rw [whyHost_origin hblock hfilter]
    cases hexact : p.networkAllowDomain.find? fun r => Text.eqIgnoreAsciiCase r.value host with
    | some exact =>
      have heq := List.find?_some hexact
      refine ⟨exact, List.mem_of_find?_eq_some hexact, ?_, matches_of_eqIgnoreAsciiCase hlower heq⟩
      rw [CompiledPolicy.attributed, hexact, Option.some_or, Option.map_some]
    | none =>
      rcases hattributable hfilter with ⟨rule, hrule, heq⟩ | ⟨found, hfound, rule, hrule, hsame, hm⟩
      · exact (List.find?_eq_none.mp hexact rule hrule heq).elim
      · refine ⟨rule, hrule, ?_, hm⟩
        rw [CompiledPolicy.attributed, hexact, Option.none_or, Option.mem_def.mp hfound,
          Option.map_some, hsame]

/-- A filter that compares as documented, on hosts in ASCII. -/
def sampleStrict : NewStrict := fun allow host _ =>
  let host := Text.toAsciiLowercase host
  let allowed := allow.any fun entry =>
    let entry := Text.toAsciiLowercase entry
    entry == host ||
      match Text.stripPrefix "*." entry with
      | some suffix =>
        Text.endsWith ("." ++ suffix) host && decide (suffix.utf8ByteSize + 1 < host.utf8ByteSize)
      | none => false
  ⟨allowed, if allowed then "" else "not in network.allow"⟩

/-- The policy of a manifest with these exceptions. -/
def domainPolicy (allow : List String) : CompiledPolicy :=
  compile .linux { sampleManifest ["."] with network := ⟨.deny, allow, []⟩ }

/-- A lower-case wildcard is found again. -/
theorem whyHostRight_wildcard :
    WhyHostRight sampleStrict Text.toAsciiLowercase (domainPolicy ["*.example.com"])
      "a.Example.com" := by
  have hblock : (domainPolicy ["*.example.com"]).networkBlock = true := by decide
  refine (whyHostRight_iff hblock Text.toAsciiLowercase_idem).mpr fun _ => Or.inr ?_
  refine ⟨⟨"*.example.com", .manifest "network.allow"⟩, by decide,
    ⟨"*.example.com", .manifest "network.allow"⟩, by decide, rfl, Or.inr ?_⟩
  exact ⟨"example.com", "a", by decide, by decide, by decide⟩

/-- A wildcard with capitals allows its hosts, but they are attributed to nothing. -/
theorem not_whyHostRight_capitals :
    whyHost sampleStrict (domainPolicy ["*.Example.COM"]) "a.example.com" =
        ⟨true, none, "allowed by the egress proxy's host filter"⟩ ∧
      Matches Text.toAsciiLowercase "*.Example.COM" "a.example.com" ∧
      ¬WhyHostRight sampleStrict Text.toAsciiLowercase (domainPolicy ["*.Example.COM"])
        "a.example.com" := by
  have hwhy : whyHost sampleStrict (domainPolicy ["*.Example.COM"]) "a.example.com" =
      ⟨true, none, "allowed by the egress proxy's host filter"⟩ := by
    decide
  refine ⟨hwhy, Or.inr ⟨"example.com", "a", by decide, by decide, by decide⟩, fun hright => ?_⟩
  obtain ⟨rule, -, horigin, -⟩ := hright.attribution (by rw [hwhy])
  rw [hwhy] at horigin
  cases horigin

end Devcroft.Policy
