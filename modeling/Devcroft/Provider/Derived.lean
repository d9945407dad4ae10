import Devcroft.Provider.Flox

/-!
# What the derived environment holds

A derived environment is found by one of its files and filled in several steps, in a
directory that the sandbox can write. It holds the stripped manifest and the project's
lock when it is filled afresh without links and without a stale lock; an environment
that is found is whatever was left there.
-/

namespace Devcroft.Provider

variable {Place : Type} [DecidableEq Place]

/-- The error monad gives a result exactly when both of its halves do. -/
theorem bind_eq_ok {ε α β : Type} {x : Except ε α} {f : α → Except ε β} {b : β} :
    (x >>= f) = .ok b ↔ ∃ a, x = .ok a ∧ f a = .ok b := by
  cases x with
  | error e => simp [bind, Except.bind]
  | ok a => simp [bind, Except.bind]

/-- Writing a place shows on every path to it. -/
theorem Store.at_put_of_eq {s : Store Place} {d d' : EnvDir} {f f' : FloxFile}
    (h : s.place d' f' = s.place d f) (bytes : List UInt8) :
    (s.put d f bytes).at d' f' = .file bytes := by
  simp [Store.at, Store.put, h]

@[simp] theorem Store.at_put_self (s : Store Place) (d : EnvDir) (f : FloxFile)
    (bytes : List UInt8) : (s.put d f bytes).at d f = .file bytes := Store.at_put_of_eq rfl bytes

@[simp] theorem Store.place_put (s : Store Place) (d : EnvDir) (f : FloxFile)
    (bytes : List UInt8) : (s.put d f bytes).place = s.place := rfl

/-- Writing one place leaves the others alone. -/
theorem Store.at_put_of_ne {s : Store Place} {d d' : EnvDir} {f f' : FloxFile}
    (h : s.place d' f' ≠ s.place d f) (bytes : List UInt8) :
    (s.put d f bytes).at d' f' = s.at d' f' := by
  simp [Store.at, Store.put, h]

omit [DecidableEq Place] in
theorem Store.read_eq_some_iff {s : Store Place} {d : EnvDir} {f : FloxFile}
    {bytes : List UInt8} : s.read d f = some bytes ↔ s.at d f = .file bytes := by
  unfold read
  cases s.at d f <;> simp

/-- Whether a derivation finds an `env.json` to copy: the project has one, or its path is a link to
a file that the derivation writes before. -/
def EnvCopied (s : Store Place) (fingerprint : String) : Prop :=
  s.isFile .project .envJson = true ∨
  s.place .project .envJson = s.place (.derived fingerprint) .manifest ∨
  (s.isFile .project .lock = true ∧
    s.place .project .envJson = s.place (.derived fingerprint) .lock)

/-- No link makes one step of a derivation write what another step reads or wrote. -/
structure Undisturbed (s : Store Place) (fingerprint : String) : Prop where
  /-- The derived manifest and lock are two files. -/
  lock_manifest : s.place (.derived fingerprint) .lock ≠ s.place (.derived fingerprint) .manifest
  /-- The project's lock is not a link to the derived manifest. -/
  source_manifest : s.place .project .lock ≠ s.place (.derived fingerprint) .manifest
  /-- The derived lock is not a link to the project's lock. -/
  source_lock : s.isFile .project .lock = true →
    s.place .project .lock ≠ s.place (.derived fingerprint) .lock
  /-- The derived `env.json`, if it is written, is neither the manifest nor the lock. -/
  env_json : EnvCopied s fingerprint →
    s.place (.derived fingerprint) .envJson ≠ s.place (.derived fingerprint) .manifest ∧
    s.place (.derived fingerprint) .envJson ≠ s.place (.derived fingerprint) .lock

/-- A derived copy has the project's lock: the same bytes, or none where the project has none. -/
def LockMatches (original s : Store Place) (fingerprint : String) : Prop :=
  match original.read .project .lock with
  | some bytes => s.at (.derived fingerprint) .lock = .file bytes
  | none => s.at (.derived fingerprint) .lock = .absent

/-- The activated directory is a derived copy with exactly the stripped manifest and the project's
lock. -/
def HookFree (host : FloxHost Place) (a : Activation Place) : Prop :=
  ∃ fingerprint bytes text stripped, a.dir = .derived fingerprint ∧
    host.store.read .project .manifest = some bytes ∧ Utf8.decode bytes = some text ∧
    stripHook host.toml text = .ok stripped ∧
    a.store.at (.derived fingerprint) .manifest = .file (Utf8.encode stripped) ∧
    LockMatches host.store a.store fingerprint

/-- What has to be in the artifact directory before: a derived copy that is found is already what
it should be; one that is not is free of links and of a lock that the project does not have. -/
def SafeToDerive (host : FloxHost Place) (fingerprint : String) : Prop :=
  if host.store.isFile (.derived fingerprint) .manifest then
    (∃ bytes text stripped, host.store.read .project .manifest = some bytes ∧
      Utf8.decode bytes = some text ∧ stripHook host.toml text = .ok stripped ∧
      host.store.at (.derived fingerprint) .manifest = .file (Utf8.encode stripped)) ∧
    LockMatches host.store host.store fingerprint
  else
    Undisturbed host.store fingerprint ∧
      (host.store.isFile .project .lock = true ∨
        host.store.at (.derived fingerprint) .lock = .absent)

/-- Writing succeeds only where there is no obstacle, and puts the bytes in place. -/
theorem FloxHost.write_ok {host : FloxHost Place} {store store' : Store Place} {d : EnvDir}
    {f : FloxFile} {bytes : List UInt8} {step : Step} {doing : String}
    (h : host.write store d f bytes step doing = .ok store') : store' = store.put d f bytes := by
  unfold write at h
  obtain ⟨_, -, h⟩ := bind_eq_ok.mp h
  split at h
  · cases h
  · exact (Except.ok.inj h).symm

/-- Copying an optional file changes its place to the copied bytes when the project has it, and
nothing otherwise. -/
theorem FloxHost.copyOptional_ok {host : FloxHost Place} {derived : EnvDir}
    {store store' : Store Place} {f : FloxFile}
    (h : host.copyOptional derived store f = .ok store') :
    store' = match store.read .project f with
      | none => store
      | some bytes => store.put derived f (store.copied .project derived f bytes) := by
  unfold copyOptional at h
  cases hread : store.read .project f with
  | none =>
    simp only [hread] at h
    exact (Except.ok.inj h).symm
  | some bytes =>
    simp only [hread] at h
    exact write_ok h

/-- The two ways a derivation succeeds. -/
theorem FloxHost.deriveHookFreeEnv_ok {host : FloxHost Place} {dir : EnvDir} {store : Store Place}
    (h : host.deriveHookFreeEnv = .ok (dir, store)) :
    ∃ fingerprint, host.manifestFingerprint = .ok fingerprint ∧ dir = .derived fingerprint ∧
      ((host.store.isFile dir .manifest = true ∧ store = host.store) ∨
        (host.store.isFile dir .manifest = false ∧ ∃ bytes text stripped written locked,
          host.store.read .project .manifest = some bytes ∧ Utf8.decode bytes = some text ∧
          stripHook host.toml text = .ok stripped ∧
          written = host.store.put dir .manifest (Utf8.encode stripped) ∧
          host.copyOptional dir written .lock = .ok locked ∧
          host.copyOptional dir locked .envJson = .ok store)) := by
  unfold deriveHookFreeEnv at h
  obtain ⟨fingerprint, hfingerprint, h⟩ := bind_eq_ok.mp h
  refine ⟨fingerprint, hfingerprint, ?_⟩
  dsimp only at h
  split at h
  · next hfile =>
    obtain ⟨rfl, rfl⟩ := Prod.mk.inj (Except.ok.inj h)
    exact ⟨rfl, Or.inl ⟨hfile, rfl⟩⟩
  · next hfile =>
    obtain ⟨_, -, h⟩ := bind_eq_ok.mp h
    obtain ⟨text, htext, h⟩ := bind_eq_ok.mp h
    obtain ⟨stripped, hstripped, h⟩ := bind_eq_ok.mp h
    obtain ⟨written, hwritten, h⟩ := bind_eq_ok.mp h
    obtain ⟨locked, hlocked, h⟩ := bind_eq_ok.mp h
    obtain ⟨final, hfinal, h⟩ := bind_eq_ok.mp h
    obtain ⟨rfl, rfl⟩ := Prod.mk.inj (Except.ok.inj h)
    have hsource : ∃ bytes, host.store.read .project .manifest = some bytes ∧
        Utf8.decode bytes = some text := by
      unfold readText readSource at htext
      obtain ⟨bytes, hbytes, htext⟩ := bind_eq_ok.mp htext
      obtain ⟨_, -, hbytes⟩ := bind_eq_ok.mp hbytes
      split at hbytes
      · next found hfound =>
        obtain rfl := Except.ok.inj hbytes
        split at htext
        · next decoded hdecoded =>
          obtain rfl := Except.ok.inj htext
          exact ⟨found, hfound, hdecoded⟩
        · cases htext
      · cases hbytes
    obtain ⟨bytes, hread, hdecode⟩ := hsource
    exact ⟨rfl, Or.inr ⟨by simpa using hfile, bytes, text, stripped, written, locked, hread,
      hdecode, hstripped, write_ok hwritten, hlocked, hfinal⟩⟩

/-- What a link can put in place of the project's `env.json` before it is copied. -/
theorem env_read_cases {host : FloxHost Place} {fingerprint : String} {manifest env : List UInt8}
    {written locked : Store Place}
    (hwritten : written = host.store.put (.derived fingerprint) .manifest manifest)
    (hlocked : host.copyOptional (.derived fingerprint) written .lock = .ok locked)
    (henv : locked.read .project .envJson = some env) :
    host.store.read .project .envJson = some env ∨
    (host.store.place .project .envJson = host.store.place (.derived fingerprint) .manifest ∧
      env = manifest) ∨
    (host.store.place .project .envJson = host.store.place (.derived fingerprint) .lock ∧
      ∃ lock, written.read .project .lock = some lock ∧
        env = written.copied .project (.derived fingerprint) .lock lock) := by
  have hbefore : written.read .project .envJson = some env →
      host.store.read .project .envJson = some env ∨
      (host.store.place .project .envJson = host.store.place (.derived fingerprint) .manifest ∧
        env = manifest) := by
    intro hread
    rw [Store.read_eq_some_iff] at hread ⊢
    rw [hwritten] at hread
    by_cases hlink : host.store.place .project .envJson =
        host.store.place (.derived fingerprint) .manifest
    · refine Or.inr ⟨hlink, ?_⟩
      rw [Store.at_put_of_eq hlink] at hread
      exact (Node.file.inj hread).symm
    · rw [Store.at_put_of_ne hlink] at hread
      exact Or.inl hread
  have hresult := FloxHost.copyOptional_ok hlocked
  cases hlock : written.read .project .lock with
  | none =>
    rw [hlock] at hresult
    obtain rfl : locked = written := hresult
    exact (hbefore henv).imp_right Or.inl
  | some lock =>
    rw [hlock] at hresult
    dsimp only at hresult
    rw [Store.read_eq_some_iff, hresult] at henv
    have hplace : written.place = host.store.place := by rw [hwritten, Store.place_put]
    by_cases hlink : written.place .project .envJson = written.place (.derived fingerprint) .lock
    · refine Or.inr (Or.inr ⟨by rwa [hplace] at hlink, lock, rfl, ?_⟩)
      rw [Store.at_put_of_eq hlink] at henv
      exact (Node.file.inj henv).symm
    · rw [Store.at_put_of_ne hlink] at henv
      exact (hbefore (Store.read_eq_some_iff.mpr henv)).imp_right Or.inl

/-- An `env.json` that is copied was found before, or came with a link. -/
theorem envCopied_of_read {host : FloxHost Place} {fingerprint : String}
    {manifest env : List UInt8} {written locked : Store Place}
    (hwritten : written = host.store.put (.derived fingerprint) .manifest manifest)
    (hlocked : host.copyOptional (.derived fingerprint) written .lock = .ok locked)
    (hsource : written.read .project .lock = host.store.read .project .lock)
    (henv : locked.read .project .envJson = some env) : EnvCopied host.store fingerprint := by
  rcases env_read_cases hwritten hlocked henv with hread | ⟨hlink, -⟩ | ⟨hlink, lock, hlock, -⟩
  · exact Or.inl (by simp [Store.isFile, hread])
  · exact Or.inr (Or.inl hlink)
  · rw [hsource] at hlock
    exact Or.inr (Or.inr ⟨by simp [Store.isFile, hlock], hlink⟩)

/-- Copying `env.json` leaves the manifest and the lock alone when no link leads it there. -/
theorem at_of_env_json {host : FloxHost Place} {fingerprint : String}
    {locked store : Store Place} {f : FloxFile} (hplace : locked.place = host.store.place)
    (hcopied : ∀ env, locked.read .project .envJson = some env → EnvCopied host.store fingerprint)
    (henv : EnvCopied host.store fingerprint →
      host.store.place (.derived fingerprint) .envJson ≠
        host.store.place (.derived fingerprint) .manifest ∧
      host.store.place (.derived fingerprint) .envJson ≠
        host.store.place (.derived fingerprint) .lock)
    (hstore : host.copyOptional (.derived fingerprint) locked .envJson = .ok store)
    (hf : f ≠ .envJson) :
    store.at (.derived fingerprint) f = locked.at (.derived fingerprint) f := by
  rw [FloxHost.copyOptional_ok hstore]
  split
  · rfl
  · next env hread =>
    refine Store.at_put_of_ne ?_ _
    obtain ⟨hmanifest, hlock⟩ := henv (hcopied env hread)
    rw [hplace]
    cases f with
    | manifest => exact hmanifest.symm
    | lock => exact hlock.symm
    | envJson => exact (hf rfl).elim

/-- A fresh derivation that no link disturbs, and that finds no lock which the project does not
have, leaves the stripped manifest and the project's lock. -/
theorem hookFree_of_undisturbed {host : FloxHost Place} {fingerprint : String}
    {manifest : List UInt8} {written locked store : Store Place}
    (hundisturbed : Undisturbed host.store fingerprint)
    (hlock : host.store.isFile .project .lock = true ∨
      host.store.at (.derived fingerprint) .lock = .absent)
    (hwritten : written = host.store.put (.derived fingerprint) .manifest manifest)
    (hlocked : host.copyOptional (.derived fingerprint) written .lock = .ok locked)
    (hstore : host.copyOptional (.derived fingerprint) locked .envJson = .ok store) :
    store.at (.derived fingerprint) .manifest = .file manifest ∧
      LockMatches host.store store fingerprint := by
  have hplace : written.place = host.store.place := by rw [hwritten, Store.place_put]
  have hmanifest : written.at (.derived fingerprint) .manifest = .file manifest := by
    rw [hwritten, Store.at_put_self]
  have hkept : ∀ d f, host.store.place d f ≠ host.store.place (.derived fingerprint) .manifest →
      written.at d f = host.store.at d f := by
    intro d f hne
    rw [hwritten]
    exact Store.at_put_of_ne hne _
  have hsource : written.read .project .lock = host.store.read .project .lock := by
    unfold Store.read
    rw [hkept _ _ hundisturbed.source_manifest]
  have hresult := FloxHost.copyOptional_ok hlocked
  rw [hsource] at hresult
  have hstate : locked.at (.derived fingerprint) .manifest = .file manifest ∧
      LockMatches host.store locked fingerprint ∧ locked.place = host.store.place := by
    cases hread : host.store.read .project .lock with
    | none =>
      rw [hread] at hresult
      obtain rfl : locked = written := hresult
      have habsent : host.store.at (.derived fingerprint) .lock = .absent := by
        refine hlock.resolve_left ?_
        simp [Store.isFile, hread]
      refine ⟨hmanifest, ?_, hplace⟩
      rw [LockMatches, hread]
      exact (hkept _ _ hundisturbed.lock_manifest).trans habsent
    | some bytes =>
      rw [hread] at hresult
      have hisFile : host.store.isFile .project .lock = true := by simp [Store.isFile, hread]
      have hcopied : written.copied .project (.derived fingerprint) .lock bytes = bytes := by
        unfold Store.copied
        rw [hplace, if_neg (hundisturbed.source_lock hisFile)]
      dsimp only at hresult
      rw [hcopied] at hresult
      refine ⟨?_, ?_, ?_⟩
      · rw [hresult, Store.at_put_of_ne (by rw [hplace]; exact hundisturbed.lock_manifest.symm)]
        exact hmanifest
      · rw [LockMatches, hread, hresult]
        exact Store.at_put_self _ _ _ _
      · rw [hresult, Store.place_put, hplace]
  obtain ⟨hmanifest, hmatches, hplace⟩ := hstate
  have hat : ∀ f, f ≠ .envJson →
      store.at (.derived fingerprint) f = locked.at (.derived fingerprint) f := fun f hf =>
    at_of_env_json hplace (fun _ => envCopied_of_read hwritten hlocked hsource)
      hundisturbed.env_json hstore hf
  refine ⟨(hat .manifest (by decide)).trans hmanifest, ?_⟩
  unfold LockMatches at hmatches ⊢
  rw [hat .lock (by decide)]
  exact hmatches

/-- A file stays a file, whatever is copied. -/
theorem file_of_copyOptional {host : FloxHost Place} {derived d : EnvDir}
    {store store' : Store Place} {f f' : FloxFile} {bytes : List UInt8}
    (h : host.copyOptional derived store f = .ok store') (hfile : store.at d f' = .file bytes) :
    ∃ bytes', store'.at d f' = .file bytes' := by
  rw [FloxHost.copyOptional_ok h]
  split
  · exact ⟨bytes, hfile⟩
  · by_cases hplace : store.place d f' = store.place derived f
    · exact ⟨_, Store.at_put_of_eq hplace _⟩
    · exact ⟨bytes, (Store.at_put_of_ne hplace _).trans hfile⟩

/-- The stripped manifest, the project's lock and its `env.json` are three different texts, and the
first two are not empty: no file can pass for another. -/
structure BytesDiffer (s : Store Place) (manifest : List UInt8) : Prop where
  manifest_ne : manifest ≠ []
  lock_ne : ∀ lock, s.read .project .lock = some lock → lock ≠ [] ∧ lock ≠ manifest
  env_ne : ∀ env, s.read .project .envJson = some env → env ≠ manifest ∧
    s.read .project .lock ≠ some env

/-- An `env.json` that is found before the derivation is found when it is copied. -/
theorem isFile_of_envCopied {host : FloxHost Place} {fingerprint : String} {manifest : List UInt8}
    {written locked : Store Place}
    (hwritten : written = host.store.put (.derived fingerprint) .manifest manifest)
    (hlocked : host.copyOptional (.derived fingerprint) written .lock = .ok locked)
    (hsource : written.read .project .lock = host.store.read .project .lock)
    (henv : EnvCopied host.store fingerprint) :
    ∃ env, locked.read .project .envJson = some env := by
  have hplace : written.place = host.store.place := by rw [hwritten, Store.place_put]
  have hkept : ∀ bytes, written.at .project .envJson = .file bytes →
      ∃ env, locked.read .project .envJson = some env := by
    intro bytes hfile
    obtain ⟨env, henv⟩ := file_of_copyOptional hlocked hfile
    exact ⟨env, Store.read_eq_some_iff.mpr henv⟩
  have hlinked : host.store.place .project .envJson =
      host.store.place (.derived fingerprint) .manifest →
      ∃ env, locked.read .project .envJson = some env := by
    intro hlink
    refine hkept manifest ?_
    rw [hwritten]
    exact Store.at_put_of_eq hlink _
  rcases henv with hfile | hlink | ⟨hlock, hlink⟩
  · by_cases hlink : host.store.place .project .envJson =
        host.store.place (.derived fingerprint) .manifest
    · exact hlinked hlink
    · obtain ⟨bytes, hread⟩ := Option.isSome_iff_exists.mp hfile
      refine hkept bytes ?_
      rw [hwritten, Store.at_put_of_ne hlink]
      exact Store.read_eq_some_iff.mp hread
  · exact hlinked hlink
  · obtain ⟨lock, hread⟩ := Option.isSome_iff_exists.mp hlock
    have hresult := FloxHost.copyOptional_ok hlocked
    rw [hsource, hread] at hresult
    dsimp only at hresult
    have hlocked' : locked.at .project .envJson =
        .file (written.copied .project (.derived fingerprint) .lock lock) := by
      rw [hresult]
      exact Store.at_put_of_eq (by rw [hplace, hlink]) _
    exact ⟨_, Store.read_eq_some_iff.mpr hlocked'⟩

/-- Where the lock ends as it should and the project has none, none was copied. -/
theorem not_file_of_lockMatches {host : FloxHost Place} {fingerprint : String}
    {locked store : Store Place}
    (hstore : host.copyOptional (.derived fingerprint) locked .envJson = .ok store)
    (hmatches : LockMatches host.store store fingerprint)
    (hnone : host.store.read .project .lock = none) (bytes : List UInt8) :
    locked.at (.derived fingerprint) .lock ≠ .file bytes := by
  intro hfile
  obtain ⟨bytes', hfile'⟩ := file_of_copyOptional hstore hfile
  rw [LockMatches, hnone] at hmatches
  rw [show store.at _ _ = _ from hmatches] at hfile'
  cases hfile'

/-- The project's lock was not overwritten by the stripped manifest. -/
theorem source_ne_manifest {host : FloxHost Place} {fingerprint : String}
    {manifest : List UInt8} {written locked store : Store Place}
    (hfresh : host.store.isFile (.derived fingerprint) .manifest = false)
    (hwritten : written = host.store.put (.derived fingerprint) .manifest manifest)
    (hlocked : host.copyOptional (.derived fingerprint) written .lock = .ok locked)
    (hstore : host.copyOptional (.derived fingerprint) locked .envJson = .ok store)
    (hmatches : LockMatches host.store store fingerprint) :
    host.store.place .project .lock ≠ host.store.place (.derived fingerprint) .manifest := by
  intro hlink
  have hresult := FloxHost.copyOptional_ok hlocked
  have hnone : host.store.read .project .lock = none := by
    unfold Store.isFile Store.read Store.at at hfresh
    unfold Store.read Store.at
    rw [hlink]
    exact Option.not_isSome_iff_eq_none.mp (by simp [hfresh])
  have hread : written.read .project .lock = some manifest := by
    rw [Store.read_eq_some_iff, hwritten]
    exact Store.at_put_of_eq hlink _
  rw [hread] at hresult
  dsimp only at hresult
  refine not_file_of_lockMatches hstore hmatches hnone
    (written.copied .project (.derived fingerprint) .lock manifest) ?_
  rw [hresult]
  exact Store.at_put_self _ _ _ _

/-- What is copied as the `env.json` never passes for what it would overwrite. -/
theorem env_ne_of_envCopied {host : FloxHost Place} {fingerprint : String}
    {manifest : List UInt8} {written locked store : Store Place}
    (hdiffer : BytesDiffer host.store manifest)
    (hwritten : written = host.store.put (.derived fingerprint) .manifest manifest)
    (hlocked : host.copyOptional (.derived fingerprint) written .lock = .ok locked)
    (hstore : host.copyOptional (.derived fingerprint) locked .envJson = .ok store)
    (hplace : locked.place = host.store.place)
    (hread : written.read .project .lock = host.store.read .project .lock)
    (hcopied : EnvCopied host.store fingerprint) :
    ∃ bytes, store = locked.put (.derived fingerprint) .envJson bytes ∧
      (host.store.place (.derived fingerprint) .envJson =
        host.store.place (.derived fingerprint) .manifest → bytes ≠ manifest) ∧
      (host.store.place (.derived fingerprint) .envJson =
        host.store.place (.derived fingerprint) .lock →
        host.store.read .project .lock ≠ some bytes) := by
  obtain ⟨env, hfound⟩ := isFile_of_envCopied hwritten hlocked hread hcopied
  have hfinal := FloxHost.copyOptional_ok hstore
  rw [hfound] at hfinal
  refine ⟨_, hfinal, ?_⟩
  unfold Store.copied
  rw [hplace]
  split
  · exact ⟨fun _ => hdiffer.manifest_ne.symm, fun _ hnil => (hdiffer.lock_ne _ hnil).1 rfl⟩
  · next hself =>
    rcases env_read_cases hwritten hlocked hfound with henv | ⟨hlink, rfl⟩ | ⟨hlink, lock, hl, rfl⟩
    · exact ⟨fun _ => (hdiffer.env_ne env henv).1, fun _ => (hdiffer.env_ne env henv).2⟩
    · refine ⟨fun heq => (hself (hlink.trans heq.symm)).elim, fun _ hsame => ?_⟩
      exact (hdiffer.lock_ne _ hsame).2 rfl
    · rw [hread] at hl
      refine ⟨fun _ => ?_, fun heq => (hself (hlink.trans heq.symm)).elim⟩
      unfold Store.copied
      split
      · exact hdiffer.manifest_ne.symm
      · exact (hdiffer.lock_ne lock hl).2

/-- So no link leads the `env.json` to a file that ends as it should. -/
theorem env_json_apart {host : FloxHost Place} {fingerprint : String}
    {manifest : List UInt8} {written locked store : Store Place}
    (hdiffer : BytesDiffer host.store manifest)
    (hwritten : written = host.store.put (.derived fingerprint) .manifest manifest)
    (hlocked : host.copyOptional (.derived fingerprint) written .lock = .ok locked)
    (hstore : host.copyOptional (.derived fingerprint) locked .envJson = .ok store)
    (hmanifest : store.at (.derived fingerprint) .manifest = .file manifest)
    (hmatches : LockMatches host.store store fingerprint)
    (hplace : locked.place = host.store.place)
    (hread : written.read .project .lock = host.store.read .project .lock)
    (hcopied : EnvCopied host.store fingerprint) :
    host.store.place (.derived fingerprint) .envJson ≠
        host.store.place (.derived fingerprint) .manifest ∧
      host.store.place (.derived fingerprint) .envJson ≠
        host.store.place (.derived fingerprint) .lock := by
  obtain ⟨bytes, hfinal, hne, hne'⟩ :=
    env_ne_of_envCopied hdiffer hwritten hlocked hstore hplace hread hcopied
  refine ⟨fun hlink => ?_, fun hlink => ?_⟩
  · rw [hfinal, Store.at_put_of_eq (by rw [hplace, hlink])] at hmanifest
    exact hne hlink (Node.file.inj hmanifest)
  · have hlock : store.at (.derived fingerprint) .lock = .file bytes := by
      rw [hfinal]
      exact Store.at_put_of_eq (by rw [hplace, hlink]) _
    unfold LockMatches at hmatches
    rw [hlock] at hmatches
    split at hmatches
    · next found hfound =>
      obtain rfl := Node.file.inj hmatches
      exact hne' hlink hfound
    · cases hmatches

/-- Conversely, a fresh derivation of three different texts that ends with the stripped manifest
and the project's lock was not disturbed. -/
theorem undisturbed_of_hookFree {host : FloxHost Place} {fingerprint : String}
    {manifest : List UInt8} {written locked store : Store Place}
    (hfresh : host.store.isFile (.derived fingerprint) .manifest = false)
    (hdiffer : BytesDiffer host.store manifest)
    (hwritten : written = host.store.put (.derived fingerprint) .manifest manifest)
    (hlocked : host.copyOptional (.derived fingerprint) written .lock = .ok locked)
    (hstore : host.copyOptional (.derived fingerprint) locked .envJson = .ok store)
    (hmanifest : store.at (.derived fingerprint) .manifest = .file manifest)
    (hmatches : LockMatches host.store store fingerprint) :
    Undisturbed host.store fingerprint ∧ (host.store.isFile .project .lock = true ∨
      host.store.at (.derived fingerprint) .lock = .absent) := by
  have hplace : written.place = host.store.place := by rw [hwritten, Store.place_put]
  have hplaceLocked : locked.place = host.store.place := by
    rw [FloxHost.copyOptional_ok hlocked]
    split <;> exact hplace
  have hsource := source_ne_manifest hfresh hwritten hlocked hstore hmatches
  have hread : written.read .project .lock = host.store.read .project .lock := by
    unfold Store.read
    rw [hwritten, Store.at_put_of_ne hsource]
  have henvJson := env_json_apart hdiffer hwritten hlocked hstore hmanifest hmatches hplaceLocked
    hread
  have habsent := not_file_of_lockMatches hstore hmatches
  have hat : ∀ f, f ≠ .envJson →
      store.at (.derived fingerprint) f = locked.at (.derived fingerprint) f := fun f hf =>
    at_of_env_json hplaceLocked (fun _ => envCopied_of_read hwritten hlocked hread) henvJson hstore
      hf
  rw [hat .manifest (by decide)] at hmanifest
  unfold LockMatches at hmatches
  rw [hat .lock (by decide)] at hmatches
  have hresult := FloxHost.copyOptional_ok hlocked
  rw [hread] at hresult
  cases hlock : host.store.read .project .lock with
  | none =>
    rw [hlock] at hresult hmatches
    obtain rfl : locked = written := hresult
    have hne : host.store.place (.derived fingerprint) .lock ≠
        host.store.place (.derived fingerprint) .manifest := by
      intro hlink
      refine habsent hlock manifest ?_
      rw [hwritten]
      exact Store.at_put_of_eq hlink _
    have hstale : host.store.at (.derived fingerprint) .lock = .absent := by
      rw [← show locked.at _ _ = _ from hmatches, hwritten]
      exact (Store.at_put_of_ne hne _).symm
    exact ⟨⟨hne, hsource, by simp [Store.isFile, hlock], henvJson⟩, Or.inr hstale⟩
  | some lock =>
    rw [hlock] at hresult hmatches
    dsimp only at hresult hmatches
    obtain ⟨hnil, hlockne⟩ := hdiffer.lock_ne lock hlock
    have hcopy : written.copied .project (.derived fingerprint) .lock lock = lock := by
      rw [hresult, Store.at_put_self] at hmatches
      exact Node.file.inj hmatches
    refine ⟨⟨?_, hsource, ?_, henvJson⟩, Or.inl (by simp [Store.isFile, hlock])⟩
    · intro hlink
      rw [hresult, Store.at_put_of_eq (by rw [hplace, hlink]), hcopy] at hmanifest
      exact hlockne (Node.file.inj hmanifest)
    · intro _ hlink
      unfold Store.copied at hcopy
      rw [hplace, if_pos hlink] at hcopy
      exact hnil hcopy.symm

/-- A resolution that reaches the activation of a project with a hook derived the directory. -/
theorem FloxHost.resolve_ok {host : FloxHost Place} {a : Activation Place} {script : String}
    (h : host.resolve = .ok a) (hscript : a.script = some script) :
    host.activationHookScript = .ok (some script) ∧
      host.deriveHookFreeEnv = .ok (a.dir, a.store) := by
  unfold resolve at h
  obtain ⟨_, -, h⟩ := bind_eq_ok.mp h
  obtain ⟨found, hfound, h⟩ := bind_eq_ok.mp h
  cases found with
  | none =>
    obtain ⟨_, -, h⟩ := bind_eq_ok.mp h
    obtain ⟨_, -, h⟩ := bind_eq_ok.mp h
    split at h
    · obtain rfl := Except.ok.inj h
      cases hscript
    · cases h
  | some found =>
    obtain ⟨⟨dir, store⟩, hderived, h⟩ := bind_eq_ok.mp h
    obtain ⟨baseline, -, h⟩ := bind_eq_ok.mp h
    split at h
    · obtain rfl := Except.ok.inj h
      obtain rfl := Option.some.inj hscript
      exact ⟨hfound, hderived⟩
    · cases h

/-- The texts that a derivation copies differ. -/
def TextsDiffer (host : FloxHost Place) : Prop :=
  ∀ bytes text stripped, host.store.read .project .manifest = some bytes →
    Utf8.decode bytes = some text → stripHook host.toml text = .ok stripped →
    BytesDiffer host.store (Utf8.encode stripped)

/-- Whenever the project has a hook, the activated directory is its hook-free copy if the artifact
directory was safe to derive in; and only if, unless a link makes one text of the project stand for
an equal one. -/
theorem hookFree_iff {host : FloxHost Place} {a : Activation Place} {script : String}
    (h : host.resolve = .ok a) (hscript : a.script = some script) :
    ∃ fingerprint, host.manifestFingerprint = .ok fingerprint ∧
      (SafeToDerive host fingerprint → HookFree host a) ∧
      (host.store.isFile (.derived fingerprint) .manifest = true ∨ TextsDiffer host →
        HookFree host a → SafeToDerive host fingerprint) := by
  obtain ⟨-, hderived⟩ := FloxHost.resolve_ok h hscript
  obtain ⟨fingerprint, hfingerprint, hdir, hcases⟩ := FloxHost.deriveHookFreeEnv_ok hderived
  refine ⟨fingerprint, hfingerprint, ?_⟩
  rw [hdir] at hcases
  unfold SafeToDerive
  rcases hcases with ⟨hreused, hstore⟩ | ⟨hfresh, bytes, text, stripped, written, locked, hbytes,
    htext, hstripped, hwritten, hlocked, hstore⟩
  · -- A copy that is found is activated as it is.
    rw [if_pos hreused]
    constructor
    · rintro ⟨⟨bytes, text, stripped, hbytes, htext, hstripped, hmanifest⟩, hlock⟩
      rw [← hstore] at hmanifest
      refine ⟨fingerprint, bytes, text, stripped, hdir, hbytes, htext, hstripped, hmanifest, ?_⟩
      rwa [hstore]
    · rintro - ⟨fingerprint', bytes, text, stripped, hdir', hbytes, htext, hstripped, hmanifest,
        hlock⟩
      obtain rfl := EnvDir.derived.inj (hdir.symm.trans hdir')
      rw [hstore] at hmanifest hlock
      exact ⟨⟨bytes, text, stripped, hbytes, htext, hstripped, hmanifest⟩, hlock⟩
  · rw [if_neg (by simp [hfresh])]
    constructor
    · rintro ⟨hundisturbed, hlock⟩
      obtain ⟨hmanifest, hmatches⟩ :=
        hookFree_of_undisturbed hundisturbed hlock hwritten hlocked hstore
      exact ⟨fingerprint, bytes, text, stripped, hdir, hbytes, htext, hstripped, hmanifest,
        hmatches⟩
    · rintro hdiffer ⟨fingerprint', bytes', text', stripped', hdir', hbytes', htext', hstripped',
        hmanifest, hmatches⟩
      obtain rfl := EnvDir.derived.inj (hdir.symm.trans hdir')
      obtain rfl := Option.some.inj (hbytes.symm.trans hbytes')
      obtain rfl := Option.some.inj (htext.symm.trans htext')
      obtain rfl := Except.ok.inj (hstripped.symm.trans hstripped')
      have htexts : TextsDiffer host := hdiffer.resolve_left (by simp [hfresh])
      exact undisturbed_of_hookFree hfresh (htexts bytes text stripped hbytes htext hstripped)
        hwritten hlocked hstore hmanifest hmatches

/-- A manifest with a hook. -/
def sampleFlox : String := "[hook]\non-activate = \"touch x\"\n[vars]\n"

/-- A lock. -/
def sampleLock : List UInt8 := Utf8.encode "\x7b\"lockfile-version\": 1\x7d"

/-- A project with `sampleFlox` and `sampleLock`, without links, and with this node at the manifest
of its derived copy. -/
def sampleFloxHost (found : Node) : FloxHost (EnvDir × FloxFile) where
  projectRoot := "/home/a/demo"
  floxDir := true
  store :=
    { place := fun d f => (d, f)
      node := fun p =>
        if p = (.project, .manifest) then .file (Utf8.encode sampleFlox)
        else if p = (.project, .lock) then .file sampleLock
        else if p = (.derived (fingerprint [Utf8.encode sampleFlox,
          optionalFilePart (some sampleLock)]), .manifest) then found
        else .absent }
  toml :=
    { parse := fun text =>
        if text = sampleFlox then
          .ok [("hook", .table [("on-activate", .string "touch x")]), ("vars", .table [])]
        else .error "expected `.`, `=`"
      toText := fun table => .ok (if table.any fun entry => entry.1 == "hook" then sampleFlox
        else "[vars]\n") }
  fails := fun _ => none
  ioError := "Is a directory (os error 21)"
  home := some "/home/a"
  floxOnPath := true

/-- What such a resolution activates: the script, and the manifest. -/
def activated (host : FloxHost (EnvDir × FloxFile)) : Option (Option String × Node) :=
  match host.resolve with
  | .ok a => some (a.script, a.store.at a.dir .manifest)
  | .error _ => none

theorem eq_of_activated {host : FloxHost (EnvDir × FloxFile)} {script : Option String} {node : Node}
    (h : activated host = some (script, node)) :
    ∃ a, host.resolve = .ok a ∧ a.script = script ∧ a.store.at a.dir .manifest = node := by
  unfold activated at h
  split at h
  · next a ha =>
    obtain ⟨hscript, hnode⟩ := Prod.mk.inj (Option.some.inj h)
    exact ⟨a, ha, hscript, hnode⟩
  · cases h

/-- An empty artifact directory is safe. -/
theorem hookFree_fresh : ∃ a, (sampleFloxHost .absent).resolve = .ok a ∧
    HookFree (sampleFloxHost .absent) a := by
  have hactivated : activated (sampleFloxHost .absent) =
      some (some "touch x", .file (Utf8.encode "[vars]\n")) := by decide +kernel
  obtain ⟨a, ha, hscript, -⟩ := eq_of_activated hactivated
  obtain ⟨fingerprint, -, henough, -⟩ := hookFree_iff ha hscript
  refine ⟨a, ha, henough ?_⟩
  have hmanifest : (sampleFloxHost .absent).store.isFile (.derived fingerprint) .manifest =
      false := by
    simp [sampleFloxHost, Store.isFile, Store.read, Store.at]
  unfold SafeToDerive
  rw [if_neg (by simp [hmanifest])]
  refine ⟨⟨?_, ?_, ?_, ?_⟩, Or.inl ?_⟩
  · simp [sampleFloxHost]
  · simp [sampleFloxHost]
  · simp [sampleFloxHost]
  · simp [sampleFloxHost]
  · simp [sampleFloxHost, Store.isFile, Store.read, Store.at]

/-- A manifest with the hook that is planted where the derived copy will be looked for is activated
as it is. -/
theorem not_hookFree_planted :
    ∃ a, (sampleFloxHost (.file (Utf8.encode sampleFlox))).resolve = .ok a ∧
      a.script = some "touch x" ∧
      a.store.at a.dir .manifest = .file (Utf8.encode sampleFlox) ∧
      ¬HookFree (sampleFloxHost (.file (Utf8.encode sampleFlox))) a := by
  have hactivated : activated (sampleFloxHost (.file (Utf8.encode sampleFlox))) =
      some (some "touch x", .file (Utf8.encode sampleFlox)) := by decide +kernel
  obtain ⟨a, ha, hscript, hnode⟩ := eq_of_activated hactivated
  refine ⟨a, ha, hscript, hnode, ?_⟩
  rintro ⟨fingerprint, bytes, text, stripped, hdir, hbytes, htext, hstripped, hmanifest, -⟩
  obtain rfl : bytes = Utf8.encode sampleFlox := by
    have hread : (sampleFloxHost (.file (Utf8.encode sampleFlox))).store.read .project .manifest =
        some (Utf8.encode sampleFlox) := by
      simp [sampleFloxHost, Store.read, Store.at]
    exact Option.some.inj (hbytes.symm.trans hread)
  rw [Utf8.decode_encode] at htext
  obtain rfl := Option.some.inj htext
  have hstrip : stripHook (sampleFloxHost (.file (Utf8.encode sampleFlox))).toml sampleFlox =
      .ok "[vars]\n" := by
    simp [stripHook, sampleFloxHost]
  obtain rfl := Except.ok.inj (hstripped.symm.trans hstrip)
  rw [← hdir, hnode] at hmanifest
  exact absurd (Node.file.inj hmanifest) (by decide +kernel)

end Devcroft.Provider
