import Mathlib.Logic.Function.Basic
import Devcroft.Library.Extents
import Devcroft.Library.Interleaving
import Devcroft.Library.Utf8
import Devcroft.Lifecycle.Handover

/-!
# The key of the client

All sandboxes of a user let in one client key. The first command that needs it generates it and
writes it to a file, others read it from there, and any of them can fail or be killed on the way.
The public half goes through the environment of each keeper to its SSH server, which lets in nobody
else.
-/

namespace Devcroft.Ssh.Keys

open Interleaving Extents Environ Lifecycle Policy

/-- What `ssh_key` provides: keys, and the texts that it makes and reads. -/
structure SshKey (Key Public : Type) where
  publicKey : Key → Public
  toOpenssh : Key → Option String
  fromOpenssh : String → Option Key
  publicToOpenssh : Public → Option String
  publicFromOpenssh : String → Option Public

variable {Key Public : Type}

/-- `read_openssh_file`, of a file with these bytes. -/
def SshKey.read (ssh : SshKey Key Public) (bytes : List UInt8) : Option Key :=
  (Utf8.decode bytes).bind ssh.fromOpenssh

/-- What is relied on: texts are read back, and a text that is cut off is no key, or the key
already, whatever of the rest comes after it. -/
structure SshKey.Lawful (ssh : SshKey Key Public) : Prop where
  read_text : ∀ key text, ssh.toOpenssh key = some text → ssh.fromOpenssh text = some key
  read_public : ∀ key text, ssh.publicToOpenssh key = some text →
    ssh.publicFromOpenssh text = some key
  read_cut : ∀ key text m n, ssh.toOpenssh key = some text → m ≤ n →
    ssh.read ((Utf8.encode text).take m) ≠ none →
    ssh.read ((Utf8.encode text).take n) = some key

/-- `KeyError`. -/
inductive KeyError where
  | io (errno : ℕ)
  /-- With the error of the file, if it is one. -/
  | format (errno : Option ℕ)
  deriving DecidableEq

/-- Where a call of `ensure_client_keypair` stands. -/
inductive Phase (Key : Type) where
  /-- The private key is there. -/
  | reading
  /-- It is not, and the directory is made for it. -/
  | preparing
  /-- A key was generated. -/
  | creating (key : Key)
  /-- So much of its text has been written. -/
  | writing (key : Key) (text : List UInt8) (offset : ℕ)
  | publishing (key : Key)
  | restricting (key : Key)
  | returned (result : Except KeyError Key)
  /-- The process was killed. -/
  | killed

/-- The key was not there, and has not been written yet. -/
def Phase.generating : Phase Key → Bool
  | preparing | creating _ | writing _ _ _ => true
  | _ => false

/-- The key that a call has got hold of. -/
def Phase.key : Phase Key → Option Key
  | publishing key | restricting key | returned (.ok key) => some key
  | _ => none

/-- What the SSH server of a keeper knows. -/
structure Server (Key Public : Type) where
  hostKey : Key
  authorizedKey : Public

/-- The files of the key pair, and who is about them. -/
structure Keyring (Key Public : Type) where
  privateFile : Option (List UInt8)
  publicFile : Option String
  calls : ℕ → Option (Phase Key)
  /-- The SSH server of the sandbox that a command has brought up. -/
  servers : ℕ → Option (Server Key Public)

/-- `start_from_env`, with what it reads of the environment. -/
def SshKey.startFromEnv (ssh : SshKey Key Public) (control : Control) :
    Option (Server Key Public) :=
  match control.sshHostKey, control.sshAuthorizedKey with
  | some hostKeyPem, some authorizedKeyPem =>
    match ssh.fromOpenssh hostKeyPem, ssh.publicFromOpenssh authorizedKeyPem with
    | some hostKey, some authorizedKey => some ⟨hostKey, authorizedKey⟩
    | _, _ => none
  | _, _ => none

/-- `auth_publickey`. -/
def Server.authPublickey [DecidableEq Public] (server : Server Key Public) (publicKey : Public) :
    Bool :=
  publicKey = server.authorizedKey

/-- What happens. -/
inductive Act (Key : Type) where
  /-- A command calls `ensure_client_keypair`, which looks for the private key. -/
  | look (i : ℕ)
  | read (i : ℕ) (errno : Option ℕ)
  /-- The directory is made and a key generated, or one of it fails. -/
  | prepare (i : ℕ) (answer : Except KeyError Key)
  | create (i : ℕ) (errno : Option ℕ)
  /-- So many bytes are written. -/
  | write (i n : ℕ)
  /-- Everything is written, or a write fails. -/
  | finish (i : ℕ) (errno : Option ℕ)
  | publish (i : ℕ) (errno : Option ℕ)
  | restrict (i : ℕ) (errno : Option ℕ)
  | kill (i : ℕ)
  /-- A command that is `up` goes on: it hands the keys to its keeper, which starts its server. -/
  | serve (i : ℕ) (hostKey : Key) (launch : Launch) (toJson : CapabilityPlan → String)
      (ambient : Vars)

/-- A call goes on. -/
def Keyring.moved (s : Keyring Key Public) (i : ℕ) (phase : Phase Key) : Keyring Key Public :=
  { s with calls := Function.update s.calls i (some phase) }

/-- Nobody has called yet, and there is no key. -/
def Keyring.empty : Keyring Key Public := ⟨none, none, fun _ => none, fun _ => none⟩

/-- The key that the private file holds: what an SSH client offers that is given the file. -/
def Keyring.identity (ssh : SshKey Key Public) (s : Keyring Key Public) : Option Key :=
  s.privateFile.bind ssh.read

/-- What `up` hands to its keeper. -/
def SshKey.handoff (ssh : SshKey Key Public) (hostKey key : Key) : Option SshHandoff :=
  match ssh.toOpenssh hostKey, ssh.publicToOpenssh (ssh.publicKey key) with
  | some hostKeyPem, some authorizedKeyPem => some ⟨hostKeyPem, authorizedKeyPem⟩
  | _, _ => none

/-- One step. -/
def Keyring.step (ssh : SshKey Key Public) (s : Keyring Key Public) :
    Act Key → Option (Keyring Key Public)
  | .look i =>
    match s.calls i with
    | none => some (s.moved i (if s.privateFile.isSome then .reading else .preparing))
    | some _ => none
  | .read i errno =>
    match s.calls i, s.privateFile with
    | some .reading, some bytes =>
      match errno, ssh.read bytes with
      | none, some key => some (s.moved i (.returned (.ok key)))
      | errno, _ => some (s.moved i (.returned (.error (.format errno))))
    | _, _ => none
  | .prepare i answer =>
    match s.calls i with
    | some .preparing =>
      match answer with
      | .error e => some (s.moved i (.returned (.error e)))
      | .ok key => some (s.moved i (.creating key))
    | _ => none
  | .create i errno =>
    match s.calls i with
    | some (.creating key) =>
      match ssh.toOpenssh key, errno with
      | some text, none =>
        some { s.moved i (.writing key (Utf8.encode text) 0) with privateFile := some [] }
      | none, _ => some (s.moved i (.returned (.error (.format none))))
      | some _, some errno => some (s.moved i (.returned (.error (.format (some errno)))))
    | _ => none
  | .write i n =>
    match s.calls i with
    | some (.writing key text offset) =>
      if offset + n ≤ text.length then
        some { s.moved i (.writing key text (offset + n)) with
          privateFile :=
            some (writeAt 0 (s.privateFile.getD []) offset ((text.drop offset).take n)) }
      else none
    | _ => none
  | .finish i errno =>
    match s.calls i with
    | some (.writing key text offset) =>
      match errno with
      | some errno => some (s.moved i (.returned (.error (.format (some errno)))))
      | none => if offset = text.length then some (s.moved i (.publishing key)) else none
    | _ => none
  | .publish i errno =>
    match s.calls i with
    | some (.publishing key) =>
      match ssh.publicToOpenssh (ssh.publicKey key), errno with
      | some text, none =>
        some { s.moved i (.restricting key) with publicFile := some text }
      | _, errno => some (s.moved i (.returned (.error (.format errno))))
    | _ => none
  | .restrict i errno =>
    match s.calls i with
    | some (.restricting key) =>
      match errno with
      | none => some (s.moved i (.returned (.ok key)))
      | some errno => some (s.moved i (.returned (.error (.io errno))))
    | _ => none
  | .kill i => (s.calls i).map fun _ => s.moved i .killed
  | .serve i hostKey launch toJson ambient =>
    match s.calls i with
    | some (.returned (.ok key)) =>
      (ssh.handoff hostKey key).map fun handoff =>
        { s with
          servers := Function.update s.servers i
            (ssh.startFromEnv (Control.read (launch.environ handoff toJson ambient))) }
    | _ => none

/-- Nobody else is generating a key when somebody finds none. -/
def Alone : Guard (Keyring Key Public) (Act Key) := fun s a =>
  ∀ i, a = .look i → s.privateFile = none →
    ∀ j phase, s.calls j = some phase → phase.generating = false

section Steps

variable {ssh : SshKey Key Public} {s next : Keyring Key Public} {a : Act Key}

/-- What a step does. -/
inductive KeyStep (ssh : SshKey Key Public) (s : Keyring Key Public) :
    Act Key → Keyring Key Public → Prop
  | look {i : ℕ} (hnew : s.calls i = none) :
    KeyStep ssh s (.look i) (s.moved i (if s.privateFile.isSome then .reading else .preparing))
  /-- A call goes on without the private file being written. The key that it gets hold of is in the
  file, or it had it already. -/
  | move {i : ℕ} {a : Act Key} {phase : Phase Key} (publicFile : Option String)
    (hlook : a ≠ .look i) (hcall : s.calls i ≠ none) (hphase : phase.generating = false)
    (hkey : ∀ key, phase.key = some key →
      s.identity ssh = some key ∨ ∃ old, s.calls i = some old ∧ old.key = some key) :
    KeyStep ssh s a { s.moved i phase with publicFile := publicFile }
  | generate {i : ℕ} {key : Key} (hcall : s.calls i = some .preparing) :
    KeyStep ssh s (.prepare i (.ok key)) (s.moved i (.creating key))
  | create {i : ℕ} {key : Key} {text : String} (hcall : s.calls i = some (.creating key))
    (htext : ssh.toOpenssh key = some text) :
    KeyStep ssh s (.create i none)
      { s.moved i (.writing key (Utf8.encode text) 0) with privateFile := some [] }
  | write {i n : ℕ} {key : Key} {text : List UInt8} {offset : ℕ}
    (hcall : s.calls i = some (.writing key text offset)) (hle : offset + n ≤ text.length) :
    KeyStep ssh s (.write i n)
      { s.moved i (.writing key text (offset + n)) with
        privateFile :=
          some (writeAt 0 (s.privateFile.getD []) offset ((text.drop offset).take n)) }
  | finish {i : ℕ} {key : Key} {text : List UInt8}
    (hcall : s.calls i = some (.writing key text text.length)) :
    KeyStep ssh s (.finish i none) (s.moved i (.publishing key))
  | serve {i : ℕ} {key hostKey : Key} {handoff : SshHandoff} {launch : Launch}
    {toJson : CapabilityPlan → String} {ambient : Vars}
    (hcall : s.calls i = some (.returned (.ok key)))
    (hhandoff : ssh.handoff hostKey key = some handoff) :
    KeyStep ssh s (.serve i hostKey launch toJson ambient)
      { s with
        servers := Function.update s.servers i
          (ssh.startFromEnv (Control.read (launch.environ handoff toJson ambient))) }

/-- A call that goes on, and keeps the public file. -/
theorem KeyStep.moved {i : ℕ} {phase : Phase Key} (hlook : a ≠ .look i) (hcall : s.calls i ≠ none)
    (hphase : phase.generating = false)
    (hkey : ∀ key, phase.key = some key →
      s.identity ssh = some key ∨ ∃ old, s.calls i = some old ∧ old.key = some key) :
    KeyStep ssh s a (s.moved i phase) :=
  .move s.publicFile hlook hcall hphase hkey

/-- A call that returns an error has got hold of no key. -/
theorem KeyStep.failed {i : ℕ} {e : KeyError} (hlook : a ≠ .look i) (hcall : s.calls i ≠ none) :
    KeyStep ssh s a (s.moved i (.returned (.error e))) :=
  .moved hlook hcall rfl fun _ h => nomatch h

/-- Every step is one of these. -/
theorem Keyring.step_cases (h : s.step ssh a = some next) : KeyStep ssh s a next := by
  cases a with
  | look i =>
    rw [step] at h
    split at h
    · next hnew =>
      cases h
      exact .look hnew
    · cases h
  | read i errno =>
    rw [step] at h
    split at h
    · next bytes hcall hfile =>
      split at h
      · next key hread =>
        cases h
        refine .moved nofun (by simp [hcall]) rfl fun key' hkey => Or.inl ?_
        cases hkey
        rw [identity, hfile]
        exact hread
      · cases h
        exact .failed nofun (by simp [hcall])
    · cases h
  | prepare i answer =>
    rw [step.eq_def] at h
    dsimp only at h
    split at h
    · next hcall =>
      split at h
      · cases h
        exact .failed nofun (by simp [hcall])
      · cases h
        exact .generate hcall
    · cases h
  | create i errno =>
    rw [step] at h
    split at h
    · next key hcall =>
      split at h
      · next text htext =>
        cases h
        exact .create hcall htext
      · cases h
        exact .failed nofun (by simp [hcall])
      · cases h
        exact .failed nofun (by simp [hcall])
    · cases h
  | write i n =>
    rw [step] at h
    split at h
    · next key text offset hcall =>
      split at h
      · next hle =>
        cases h
        exact .write hcall hle
      · cases h
    · cases h
  | finish i errno =>
    rw [step] at h
    split at h
    · next key text offset hcall =>
      split at h
      · cases h
        exact .failed nofun (by simp [hcall])
      · split at h
        · next hoffset =>
          cases h
          subst hoffset
          exact .finish hcall
        · cases h
    · cases h
  | publish i errno =>
    rw [step] at h
    split at h
    · next key hcall =>
      split at h
      · cases h
        refine .move _ nofun (by simp [hcall]) rfl fun key' hkey => Or.inr ⟨_, hcall, ?_⟩
        exact hkey
      · cases h
        exact .failed nofun (by simp [hcall])
    · cases h
  | restrict i errno =>
    rw [step] at h
    split at h
    · next key hcall =>
      split at h
      · cases h
        refine .moved nofun (by simp [hcall]) rfl fun key' hkey => Or.inr ⟨_, hcall, ?_⟩
        exact hkey
      · cases h
        exact .failed nofun (by simp [hcall])
    · cases h
  | kill i =>
    obtain ⟨phase, hcall, rfl⟩ := Option.map_eq_some_iff.mp h
    exact .moved nofun (by simp [hcall]) rfl fun _ h => nomatch h
  | serve i hostKey launch toJson ambient =>
    rw [step] at h
    split at h
    · next key hcall =>
      obtain ⟨handoff, hhandoff, rfl⟩ := Option.map_eq_some_iff.mp h
      exact .serve hcall hhandoff
    · cases h

@[simp] theorem Keyring.moved_self (s : Keyring Key Public) (i : ℕ) (phase : Phase Key) :
    (s.moved i phase).calls i = some phase := Function.update_self ..

theorem Keyring.moved_of_ne {i j : ℕ} (h : j ≠ i) (phase : Phase Key) :
    (s.moved i phase).calls j = s.calls j := Function.update_of_ne h ..

end Steps

section Serving

variable {ssh : SshKey Key Public}

/-- What a keeper starts of what it is handed lets in the key that `up` has got. -/
theorem startFromEnv_handoff (hlawful : ssh.Lawful) {hostKey key : Key} {handoff : SshHandoff}
    (h : ssh.handoff hostKey key = some handoff) (launch : Launch)
    (toJson : CapabilityPlan → String) (ambient : Vars) :
    ssh.startFromEnv (Control.read (launch.environ handoff toJson ambient)) =
      some ⟨hostKey, ssh.publicKey key⟩ := by
  rw [SshKey.handoff] at h
  split at h
  · next hostKeyPem authorizedKeyPem hhost hauthorized =>
    cases h
    rw [read_environ, SshKey.startFromEnv]
    simp only [Launch.control, hlawful.read_text _ _ hhost, hlawful.read_public _ _ hauthorized]
  · cases h

end Serving

section Keeping

variable {ssh : SshKey Key Public} {s next : Keyring Key Public} {a : Act Key}

/-- The file holds the key that everybody has got hold of, and at most one call is about to write
it. -/
structure Kept (ssh : SshKey Key Public) (s : Keyring Key Public) : Prop where
  absent : ∀ i phase, s.calls i = some phase → phase.generating = true →
    (∀ key text offset, phase ≠ .writing key text offset) → s.privateFile = none
  writing : ∀ i key text offset, s.calls i = some (.writing key text offset) →
    (∃ pem, ssh.toOpenssh key = some pem ∧ text = Utf8.encode pem) ∧ offset ≤ text.length ∧
      s.privateFile = some (text.take offset)
  one : ∀ i j phase phase', s.calls i = some phase → s.calls j = some phase' →
    phase.generating = true → phase'.generating = true → i = j
  held : ∀ i phase key, s.calls i = some phase → phase.key = some key →
    s.identity ssh = some key
  served : ∀ i server, s.servers i = some server →
    ∃ key, s.identity ssh = some key ∧ server.authorizedKey = ssh.publicKey key

/-- At the beginning nobody has got hold of a key. -/
theorem kept_empty : Kept ssh (Keyring.empty : Keyring Key Public) :=
  ⟨nofun, nofun, nofun, nofun, nofun⟩

/-- Nobody writes, and the key stays where it is. -/
theorem Kept.move (h : Kept ssh s) {i : ℕ} {phase : Phase Key} (publicFile : Option String)
    (hphase : phase.generating = false)
    (hkey : ∀ key, phase.key = some key → s.identity ssh = some key) :
    Kept ssh { s.moved i phase with publicFile := publicFile } := by
  have hcalls : ∀ j other, (s.moved i phase).calls j = some other → other.generating = true →
      s.calls j = some other := by
    intro j other hother hgenerating
    by_cases hj : j = i
    · subst hj
      rw [Keyring.moved_self] at hother
      cases hother
      cases hphase.symm.trans hgenerating
    · rwa [Keyring.moved_of_ne hj] at hother
  constructor
  · intro j other hother hgenerating hnot
    exact h.absent j other (hcalls j other hother hgenerating) hgenerating hnot
  · intro j key text offset hother
    exact h.writing j key text offset (hcalls j _ hother rfl)
  · intro j j' other other' hother hother' hgenerating hgenerating'
    exact h.one j j' other other' (hcalls j other hother hgenerating)
      (hcalls j' other' hother' hgenerating') hgenerating hgenerating'
  · intro j other key hother hheld
    by_cases hj : j = i
    · subst hj
      have heq : phase = other := Option.some.inj ((Keyring.moved_self s j phase).symm.trans hother)
      exact hkey key (heq ▸ hheld)
    · exact h.held j other key ((Keyring.moved_of_ne hj phase).symm.trans hother) hheld
  · exact h.served

/-- Somebody begins to generate a key, or goes on with it, and nobody else does. -/
theorem Kept.generate (h : Kept ssh s) {i : ℕ} {phase : Phase Key}
    (hgenerating : phase.generating = true)
    (halone : ∀ j other, s.calls j = some other → other.generating = true → j = i)
    (hfile : s.privateFile = none)
    (hnot : ∀ key text offset, phase ≠ .writing key text offset) : Kept ssh (s.moved i phase) := by
  have hcalls : ∀ j other, (s.moved i phase).calls j = some other → j ≠ i →
      s.calls j = some other :=
    fun j other hother hj => (Keyring.moved_of_ne hj phase).symm.trans hother
  constructor
  · exact fun _ _ _ _ _ => hfile
  · intro j key text offset hother
    by_cases hj : j = i
    · subst hj
      rw [Keyring.moved_self] at hother
      exact (hnot key text offset (Option.some.inj hother)).elim
    · exact h.writing j key text offset (hcalls j _ hother hj)
  · have hown : ∀ j other, (s.moved i phase).calls j = some other →
        other.generating = true → j = i := by
      intro j other hother hgenerating
      by_contra hj
      exact hj (halone j other (hcalls j other hother hj) hgenerating)
    intro j j' other other' hother hother' hgenerating hgenerating'
    rw [hown j other hother hgenerating, hown j' other' hother' hgenerating']
  · intro j other key hother hheld
    by_cases hj : j = i
    · subst hj
      rw [Keyring.moved_self] at hother
      cases hother
      cases phase with
      | preparing | creating | writing => cases hheld
      | reading | publishing | restricting | returned | killed => cases hgenerating
    · exact h.held j other key (hcalls j other hother hj) hheld
  · exact h.served

/-- Writing on does not change what key the file holds. -/
theorem identity_grows (hlawful : ssh.Lawful) {key held : Key} {pem : String} {offset : ℕ}
    (hpem : ssh.toOpenssh key = some pem)
    (hfile : s.privateFile = none ∨
      ∃ before ≤ offset, s.privateFile = some ((Utf8.encode pem).take before))
    (hheld : s.identity ssh = some held) :
    ssh.read ((Utf8.encode pem).take offset) = some held := by
  rcases hfile with hnone | ⟨before, hbefore, hsome⟩
  · rw [Keyring.identity, hnone] at hheld
    cases hheld
  · rw [Keyring.identity, hsome, Option.bind_some] at hheld
    have hread : ssh.read ((Utf8.encode pem).take before) ≠ none := by simp [hheld]
    have hsame := hlawful.read_cut key pem before before hpem le_rfl hread
    rw [Option.some.inj (hheld.symm.trans hsame)]
    exact hlawful.read_cut key pem before offset hpem hbefore hread

/-- Somebody has written some more, and nobody else does. -/
theorem Kept.write (h : Kept ssh s) (hlawful : ssh.Lawful) {i : ℕ} {key : Key} {pem : String}
    {offset : ℕ} (hpem : ssh.toOpenssh key = some pem)
    (hle : offset ≤ (Utf8.encode pem).length)
    (halone : ∀ j other, s.calls j = some other → other.generating = true → j = i)
    (hfile : s.privateFile = none ∨
      ∃ before ≤ offset, s.privateFile = some ((Utf8.encode pem).take before)) :
    Kept ssh { s.moved i (.writing key (Utf8.encode pem) offset) with
      privateFile := some ((Utf8.encode pem).take offset) } := by
  have hidentity : ∀ held, s.identity ssh = some held →
      ssh.read ((Utf8.encode pem).take offset) = some held :=
    fun held => identity_grows hlawful hpem hfile
  have hcalls : ∀ j other,
      (s.moved i (.writing key (Utf8.encode pem) offset)).calls j = some other → j ≠ i →
      s.calls j = some other :=
    fun j other hother hj => (Keyring.moved_of_ne hj _).symm.trans hother
  have hown : ∀ j other, (s.moved i (.writing key (Utf8.encode pem) offset)).calls j = some other →
      other.generating = true → j = i := by
    intro j other hother hgenerating
    by_contra hj
    exact hj (halone j other (hcalls j other hother hj) hgenerating)
  constructor
  · intro j other hother hgenerating hnot
    obtain rfl := hown j other hother hgenerating
    have heq := (Keyring.moved_self s j (.writing key (Utf8.encode pem) offset)).symm.trans hother
    exact (hnot _ _ _ (Option.some.inj heq).symm).elim
  · intro j key' text offset' hother
    obtain rfl := hown j _ hother rfl
    have heq := (Keyring.moved_self s j (.writing key (Utf8.encode pem) offset)).symm.trans hother
    cases heq
    exact ⟨⟨pem, hpem, rfl⟩, hle, rfl⟩
  · intro j j' other other' hother hother' hgenerating hgenerating'
    rw [hown j other hother hgenerating, hown j' other' hother' hgenerating']
  · intro j other held hother hheld
    by_cases hj : j = i
    · subst hj
      have heq := (Keyring.moved_self s j (.writing key (Utf8.encode pem) offset)).symm.trans hother
      cases heq
      cases hheld
    · exact hidentity held (h.held j other held (hcalls j other hother hj) hheld)
  · intro j server hserver
    obtain ⟨held, hheld, hkey⟩ := h.served j server hserver
    exact ⟨held, hidentity held hheld, hkey⟩

/-- Every step of which nobody else is generating a key keeps the key. -/
theorem Kept.step (h : Kept ssh s) (hlawful : ssh.Lawful) (hstep : KeyStep ssh s a next)
    (halone : Alone s a) : Kept ssh next := by
  cases hstep with
  | @look i hnew =>
    cases hfile : s.privateFile with
    | some bytes => exact h.move s.publicFile rfl (fun _ hkey => nomatch hkey)
    | none =>
      refine h.generate rfl (fun j other hother hgenerating => ?_) hfile nofun
      cases (halone i rfl hfile j other hother).symm.trans hgenerating
  | move publicFile hlook hcall hphase hkey =>
    refine h.move publicFile hphase fun key hheld => ?_
    rcases hkey key hheld with hidentity | ⟨old, hold, hheld⟩
    · exact hidentity
    · exact h.held _ old key hold hheld
  | @generate i key hcall =>
    refine h.generate rfl (fun j other hother hgenerating => ?_)
      (h.absent i _ hcall rfl nofun) nofun
    exact h.one j i other _ hother hcall hgenerating rfl
  | @create i key text hcall htext =>
    refine h.write hlawful htext (Nat.zero_le _) (fun j other hother hgenerating => ?_)
      (Or.inl (h.absent i _ hcall rfl nofun))
    exact h.one j i other _ hother hcall hgenerating rfl
  | @write i n key text offset hcall hle =>
    obtain ⟨⟨pem, hpem, rfl⟩, -, hfile⟩ := h.writing i key text offset hcall
    rw [hfile, Option.getD_some, writeAt_take hle]
    refine h.write hlawful hpem hle (fun j other hother hgenerating => ?_)
      (Or.inr ⟨offset, Nat.le_add_right _ _, hfile⟩)
    exact h.one j i other _ hother hcall hgenerating rfl
  | @finish i key text hcall =>
    obtain ⟨⟨pem, hpem, rfl⟩, -, hfile⟩ := h.writing i key text _ hcall
    refine h.move s.publicFile rfl fun key' hkey => ?_
    cases hkey
    rw [Keyring.identity, hfile, List.take_length, Option.bind_some, SshKey.read,
      Utf8.decode_encode, Option.bind_some]
    exact hlawful.read_text key pem hpem
  | @serve i key hostKey handoff launch toJson ambient hcall hhandoff =>
    refine ⟨h.absent, h.writing, h.one, h.held, fun j server hserver => ?_⟩
    by_cases hj : j = i
    · subst hj
      rw [startFromEnv_handoff hlawful hhandoff] at hserver
      dsimp only at hserver
      rw [Function.update_self] at hserver
      cases hserver
      exact ⟨key, h.held j _ key hcall rfl, rfl⟩
    · dsimp only at hserver
      rw [Function.update_of_ne hj] at hserver
      exact h.served j server hserver

/-- A key that is in the file stays there. -/
theorem Kept.identity_step (h : Kept ssh s) (hlawful : ssh.Lawful) (hstep : KeyStep ssh s a next)
    {key : Key} (hkey : s.identity ssh = some key) : next.identity ssh = some key := by
  cases hstep with
  | look | move | generate | finish | serve => exact hkey
  | @create i other text hcall htext =>
    rw [Keyring.identity, h.absent i _ hcall rfl nofun] at hkey
    cases hkey
  | @write i n other text offset hcall hle =>
    obtain ⟨⟨pem, hpem, rfl⟩, -, hfile⟩ := h.writing i other text offset hcall
    rw [hfile, Option.getD_some, writeAt_take hle]
    exact identity_grows hlawful hpem (Or.inr ⟨offset, Nat.le_add_right _ _, hfile⟩) hkey

end Keeping

section Running

variable {ssh : SshKey Key Public} {acts : List (Act Key)} {s next : Keyring Key Public}
  {a : Act Key}

/-- The key has been the same in every state so far in which there was one. -/
structure Constant (ssh : SshKey Key Public) (past : List (Keyring Key Public × Act Key))
    (s : Keyring Key Public) : Prop where
  kept : Kept ssh s
  before : ∀ p ∈ past, Kept ssh p.1 ∧
    ∀ key, p.1.identity ssh = some key → s.identity ssh = some key

theorem Constant.step {past : List (Keyring Key Public × Act Key)} (h : Constant ssh past s)
    (hlawful : ssh.Lawful) (hstep : KeyStep ssh s a next) (halone : Alone s a) :
    Constant ssh (past ++ [(s, a)]) next := by
  refine ⟨h.kept.step hlawful hstep halone, fun p hp => ?_⟩
  rcases List.mem_append.mp hp with hp | hp
  · obtain ⟨hkept, hkey⟩ := h.before p hp
    exact ⟨hkept, fun key heq => h.kept.identity_step hlawful hstep (hkey key heq)⟩
  · obtain rfl := List.mem_singleton.mp hp
    exact ⟨h.kept, fun key => h.kept.identity_step hlawful hstep⟩

theorem constant_empty : Constant ssh [] (Keyring.empty : Keyring Key Public) :=
  ⟨kept_empty, fun _ hp => nomatch hp⟩

/-- One key opens all sandboxes. As long as two commands do not generate it at the same time, in
every interleaving of commands, each of which may fail or be killed at any point: all calls of
`ensure_client_keypair` that succeed return the key in the private file, which from then on stays
there, and the SSH server of every sandbox that was brought up lets in whoever has that file, and
nobody else. -/
theorem one_key [DecidableEq Public] (hlawful : ssh.Lawful)
    (halone : Guarded Alone (steps (Keyring.step ssh) acts .empty)) :
    let s := exec (Keyring.step ssh) acts .empty
    (∀ p ∈ steps (Keyring.step ssh) acts .empty, ∀ i key,
      p.1.calls i = some (.returned (.ok key)) →
        p.1.identity ssh = some key ∧ s.identity ssh = some key) ∧
    ∀ i server, s.servers i = some server → ∃ key, s.identity ssh = some key ∧
      ∀ publicKey, server.authPublickey publicKey = true ↔ publicKey = ssh.publicKey key := by
  intro s
  have hconstant : Constant ssh (steps (Keyring.step ssh) acts .empty) s :=
    history (J := Constant ssh)
      (fun _ _ _ _ h halone hstep => h.step hlawful (Keyring.step_cases hstep) halone)
      constant_empty halone
  refine ⟨fun p hp i key hcall => ?_, fun i server hserver => ?_⟩
  · obtain ⟨hkept, hkey⟩ := hconstant.before p hp
    have hheld := hkept.held i _ key hcall rfl
    exact ⟨hheld, hkey key hheld⟩
  · obtain ⟨key, hkey, hauthorized⟩ := hconstant.kept.served i server hserver
    refine ⟨key, hkey, fun publicKey => ?_⟩
    rw [Server.authPublickey, decide_eq_true_iff, hauthorized]

/-- The file is there, nobody generates a key, and whoever has begun since then has got hold of the
one in the file, if of any. -/
structure Found (ssh : SshKey Key Public) (bytes : List UInt8) (first s : Keyring Key Public) :
    Prop where
  file : s.privateFile = some bytes
  idle : ∀ i phase, s.calls i = some phase → phase.generating = false
  later : ∀ i phase key, first.calls i = none → s.calls i = some phase → phase.key = some key →
    ssh.read bytes = some key

/-- No step changes that. -/
theorem Found.step {bytes : List UInt8} {first : Keyring Key Public}
    (h : Found ssh bytes first s) (hstep : KeyStep ssh s a next) : Found ssh bytes first next := by
  have hmove : ∀ {i : ℕ} {phase : Phase Key} (publicFile : Option String),
      phase.generating = false →
      (∀ key, first.calls i = none → phase.key = some key → ssh.read bytes = some key) →
      Found ssh bytes first { s.moved i phase with publicFile := publicFile } := by
    intro i phase publicFile hphase hkey
    refine ⟨h.file, fun j other hother => ?_, fun j other key hnew hother hheld => ?_⟩
    · by_cases hj : j = i
      · subst hj
        have heq := (Keyring.moved_self s j phase).symm.trans hother
        exact Option.some.inj heq ▸ hphase
      · exact h.idle j other ((Keyring.moved_of_ne hj phase).symm.trans hother)
    · by_cases hj : j = i
      · subst hj
        have heq := (Keyring.moved_self s j phase).symm.trans hother
        exact hkey key hnew (Option.some.inj heq ▸ hheld)
      · exact h.later j other key hnew ((Keyring.moved_of_ne hj phase).symm.trans hother) hheld
  cases hstep with
  | look hnew =>
    rw [h.file]
    exact hmove s.publicFile rfl fun _ _ hkey => nomatch hkey
  | @move i _ phase publicFile hlook hcall hphase hkey =>
    refine hmove publicFile hphase fun key hnew hheld => ?_
    rcases hkey key hheld with hidentity | ⟨old, hold, hheld⟩
    · rwa [Keyring.identity, h.file] at hidentity
    · exact h.later i old key hnew hold hheld
  | generate hcall => cases h.idle _ _ hcall
  | create hcall => cases h.idle _ _ hcall
  | write hcall => cases h.idle _ _ hcall
  | finish hcall => cases h.idle _ _ hcall
  | serve hcall hhandoff => exact ⟨h.file, h.idle, h.later⟩

end Running

section Sample

/-- Two keys, each of which is its own public half. -/
def twoKeys : SshKey Bool Bool where
  publicKey key := key
  toOpenssh key := some (if key then "yes" else "no")
  fromOpenssh text := if text = "yes" then some true else if text = "no" then some false else none
  publicToOpenssh key := some (if key then "yes" else "no")
  publicFromOpenssh text :=
    if text = "yes" then some true else if text = "no" then some false else none

theorem lawful_twoKeys : twoKeys.Lawful where
  read_text key text h := by
    cases h
    cases key <;> rfl
  read_public key text h := by
    cases h
    cases key <;> rfl
  read_cut key text m n h hle hread := by
    cases h
    have hshort : ∀ key : Bool, ∀ m < (Utf8.encode (if key then "yes" else "no")).length,
        twoKeys.read ((Utf8.encode (if key then "yes" else "no")).take m) = none := by
      decide +kernel
    have hm : (Utf8.encode (if key then "yes" else "no")).length ≤ m := by
      by_contra hlt
      exact hread (hshort key m (by omega))
    rw [List.take_of_length_le (hm.trans hle)]
    cases key <;> decide +kernel

/-- A keeper without services. -/
def plainLaunch : Launch :=
  ⟨"devcroft", "/home/u/p", [], [], ⟨[], [], [], true, [], none, [], "isolated"⟩, none, "sh", false,
    none⟩

/-- The first command generates the key while a second one looks for it and fails; the third one
finds it. -/
def threeCommands : List (Act Bool) :=
  [.look 0, .prepare 0 (.ok true), .create 0 none, .look 1, .write 0 2, .read 1 none, .write 0 1,
    .finish 0 none, .look 2, .publish 0 none, .read 2 none, .restrict 0 none,
    .serve 0 false plainLaunch (fun _ => "") ∅, .serve 2 true plainLaunch (fun _ => "") ∅]

/-- A command looks for the private key. -/
def Act.looks : Act Key → Bool
  | look _ => true
  | _ => false

/-- The third command's sandbox lets in the key of the first one. -/
theorem one_key_threeCommands :
    (exec (Keyring.step twoKeys) threeCommands .empty).identity twoKeys = some true ∧
      ∃ server, (exec (Keyring.step twoKeys) threeCommands .empty).servers 2 = some server ∧
        server.authPublickey true = true ∧ server.authPublickey false = false := by
  have hfirst : steps (Keyring.step twoKeys) threeCommands .empty =
      (.empty, .look 0) ::
        steps (Keyring.step twoKeys) threeCommands.tail (Keyring.empty.moved 0 .preparing) := rfl
  have hwritten : ∀ p ∈ steps (Keyring.step twoKeys) threeCommands.tail
      (Keyring.empty.moved 0 .preparing), p.2.looks = true → p.1.privateFile.isSome = true := by
    decide +kernel
  have halone : Guarded Alone (steps (Keyring.step twoKeys) threeCommands .empty) := by
    intro p hp i ha hnone j phase hcall
    rw [hfirst] at hp
    rcases List.mem_cons.mp hp with rfl | hp
    · cases hcall
    · have := hwritten p hp (by rw [ha, Act.looks])
      simp [hnone] at this
  have hidentity : (exec (Keyring.step twoKeys) threeCommands .empty).identity twoKeys =
      some true := by decide +kernel
  have hserver : (exec (Keyring.step twoKeys) threeCommands .empty).servers 2 =
      twoKeys.startFromEnv (Control.read (plainLaunch.environ ⟨"yes", "yes"⟩ (fun _ => "") ∅)) :=
    rfl
  have hhandoff : twoKeys.handoff true true = some ⟨"yes", "yes"⟩ := rfl
  rw [startFromEnv_handoff lawful_twoKeys hhandoff] at hserver
  obtain ⟨key, hkey, hauth⟩ := (one_key lawful_twoKeys halone).2 2 _ hserver
  obtain rfl := Option.some.inj (hidentity.symm.trans hkey)
  refine ⟨hidentity, _, hserver, (hauth true).mpr rfl, ?_⟩
  exact Bool.eq_false_iff.mpr fun hfalse => nomatch (hauth false).mp hfalse

/-- A file that holds no key. -/
def garbled : Keyring Bool Bool := { Keyring.empty with privateFile := some (Utf8.encode "maybe") }

end Sample

end Devcroft.Ssh.Keys
