import Mathlib.Tactic.Common
import Mathlib.Tactic.Ring

/-!
# Reading and writing a stream of bytes

An action on a stream sees the bytes that are left to be read, or that were written so
far, and leaves others. A reader reads a piece back as a value if it takes exactly the
piece, whatever follows it. One that looks at nothing beyond what it takes cannot take
less than the whole piece either.
-/

namespace Wire

variable {ε α β : Type}

/-- The last bytes of a number, so many of them, the highest first. -/
def bigEndian : ℕ → ℕ → List UInt8
  | 0, _ => []
  | width + 1, n => bigEndian width (n / 256) ++ [UInt8.ofNat n]

/-- The number with these bytes, the highest first. -/
def ofBigEndian (bytes : List UInt8) : ℕ := bytes.foldl (fun n b => n * 256 + b.toNat) 0

@[simp] theorem length_bigEndian (width n : ℕ) : (bigEndian width n).length = width := by
  induction width generalizing n with
  | zero => rfl
  | succ width ih => rw [bigEndian, List.length_append, ih, List.length_singleton]

theorem ofBigEndian_append_singleton (bytes : List UInt8) (b : UInt8) :
    ofBigEndian (bytes ++ [b]) = ofBigEndian bytes * 256 + b.toNat := by
  simp [ofBigEndian, List.foldl_append]

/-- The bytes give the number back, as far as it fits. -/
theorem ofBigEndian_bigEndian (width n : ℕ) :
    ofBigEndian (bigEndian width n) = n % 256 ^ width := by
  induction width generalizing n with
  | zero => simp [ofBigEndian, bigEndian, Nat.mod_one]
  | succ width ih =>
    have hlow : (UInt8.ofNat n).toNat = n % 256 := by simp
    rw [bigEndian, ofBigEndian_append_singleton, ih, hlow, pow_succ, Nat.mul_comm (256 ^ width),
      Nat.mod_mul]
    ring

/-- An action on a stream of bytes. -/
def OnBytes (ε α : Type) := List UInt8 → Except ε α × List UInt8

instance : Monad (OnBytes ε) where
  pure a := fun bytes => (.ok a, bytes)
  bind r f := fun bytes =>
    match r bytes with
    | (.ok a, bytes) => f a bytes
    | (.error e, bytes) => (.error e, bytes)

/-- Fail. -/
def fail (e : ε) : OnBytes ε α := fun bytes => (.error e, bytes)

/-- `read_exact` of so many bytes: where fewer are left it takes them all, and fails. -/
def readExact (short : ε) (n : ℕ) : OnBytes ε (List UInt8) := fun left =>
  if n ≤ left.length then (.ok (left.take n), left.drop n) else (.error short, [])

/-- Read so many times. -/
def readMany (r : OnBytes ε α) : ℕ → OnBytes ε (List α)
  | 0 => pure []
  | n + 1 => do
    let a ← r
    let rest ← readMany r n
    return a :: rest

theorem bind_ok {r : OnBytes ε α} {f : α → OnBytes ε β} {bytes left : List UInt8} {a : α}
    (h : r bytes = (.ok a, left)) : (r >>= f) bytes = f a left := by
  show (match r bytes with | (.ok a, bytes) => f a bytes | (.error e, bytes) => (.error e, bytes)) = _
  rw [h]

theorem bind_error {r : OnBytes ε α} {f : α → OnBytes ε β} {bytes left : List UInt8} {e : ε}
    (h : r bytes = (.error e, left)) : (r >>= f) bytes = (.error e, left) := by
  show (match r bytes with | (.ok a, bytes) => f a bytes | (.error e, bytes) => (.error e, bytes)) = _
  rw [h]

theorem bind_bind {γ : Type} (r : OnBytes ε α) (f : α → OnBytes ε β) (g : β → OnBytes ε γ) :
    r >>= f >>= g = r >>= fun a => f a >>= g := by
  funext bytes
  rcases hr : r bytes with ⟨e | a, left⟩
  · rw [bind_error hr, bind_error (bind_error hr)]
  · rw [bind_ok hr]
    rcases hf : f a left with ⟨e | b, left'⟩
    · rw [bind_error hf, bind_error ((bind_ok hr).trans hf)]
    · rw [bind_ok hf, bind_ok ((bind_ok hr).trans hf)]

/-- What a sequence that succeeds has done. -/
theorem bind_eq_ok {r : OnBytes ε α} {f : α → OnBytes ε β} {bytes left : List UInt8} {b : β}
    (h : (r >>= f) bytes = (.ok b, left)) :
    ∃ a between, r bytes = (.ok a, between) ∧ f a between = (.ok b, left) := by
  rcases hr : r bytes with ⟨e | a, between⟩
  · rw [bind_error hr] at h
    cases (Prod.mk.inj h).1
  · exact ⟨a, between, rfl, (bind_ok hr).symm.trans h⟩

section Reads

/-- The reader takes exactly these bytes, whatever follows them, and gives the value. -/
def Reads (r : OnBytes ε α) (bytes : List UInt8) (a : α) : Prop :=
  ∀ rest, r (bytes ++ rest) = (.ok a, rest)

theorem reads_pure (a : α) : Reads (pure a : OnBytes ε α) [] a := fun _ => rfl

theorem reads_exact (short : ε) (bytes : List UInt8) :
    Reads (readExact short bytes.length) bytes bytes := by
  intro rest
  have hle : bytes.length ≤ (bytes ++ rest).length := by simp
  simp only [readExact, if_pos hle, List.take_left, List.drop_left]

theorem Reads.bind {r : OnBytes ε α} {f : α → OnBytes ε β} {first second : List UInt8} {a : α}
    {b : β}
    (h : Reads r first a) (h' : Reads (f a) second b) : Reads (r >>= f) (first ++ second) b := by
  intro rest
  rw [List.append_assoc, bind_ok (h _)]
  exact h' rest

/-- Pieces that are read one by one. -/
theorem reads_many {r : OnBytes ε α} {pieces : List (List UInt8 × α)}
    (h : ∀ piece ∈ pieces, Reads r piece.1 piece.2) :
    Reads (readMany r pieces.length) (pieces.flatMap Prod.fst) (pieces.map Prod.snd) := by
  induction pieces with
  | nil => exact reads_pure []
  | cons piece pieces ih =>
    have hfirst := h piece List.mem_cons_self
    have hrest := ih fun piece hpiece => h piece (List.mem_cons_of_mem _ hpiece)
    have hdone := hrest.bind (f := fun rest => pure (piece.2 :: rest)) (reads_pure _)
    have hboth := hfirst.bind (f := fun a => readMany r pieces.length >>= fun rest =>
      pure (a :: rest)) hdone
    rwa [List.append_nil] at hboth

end Reads

section Local

/-- What the reader takes and gives does not depend on what follows. -/
def Local (r : OnBytes ε α) : Prop :=
  ∀ bytes a rest, r bytes = (.ok a, rest) →
    ∃ taken, bytes = taken ++ rest ∧ Reads r taken a

theorem local_pure (a : α) : Local (pure a : OnBytes ε α) := by
  intro bytes b rest h
  obtain ⟨ha, rfl⟩ := Prod.mk.inj h
  obtain rfl := Except.ok.inj ha
  exact ⟨[], rfl, reads_pure a⟩

theorem local_fail (e : ε) : Local (fail e : OnBytes ε α) := by
  intro bytes b rest h
  cases (Prod.mk.inj h).1

theorem local_exact (short : ε) (n : ℕ) : Local (readExact short n) := by
  intro bytes a rest h
  unfold readExact at h
  split at h
  · next hle =>
    obtain ⟨ha, rfl⟩ := Prod.mk.inj h
    obtain rfl := Except.ok.inj ha
    have hlength : (bytes.take n).length = n := by simp [hle]
    refine ⟨bytes.take n, (List.take_append_drop n bytes).symm, ?_⟩
    have hreads := reads_exact short (bytes.take n)
    rwa [hlength] at hreads
  · cases (Prod.mk.inj h).1

theorem Local.bind {r : OnBytes ε α} {f : α → OnBytes ε β} (hr : Local r) (hf : ∀ a, Local (f a)) :
    Local (r >>= f) := by
  intro bytes b rest h
  obtain ⟨a, between, hfirst, hsecond⟩ := bind_eq_ok h
  obtain ⟨taken, rfl, hreads⟩ := hr _ _ _ hfirst
  obtain ⟨taken', rfl, hreads'⟩ := hf a _ _ _ hsecond
  exact ⟨taken ++ taken', (List.append_assoc _ _ _).symm, hreads.bind hreads'⟩

/-- Of a piece that a local reader reads back, it takes no strict prefix. -/
theorem Local.strictPrefix {r : OnBytes ε α} (hr : Local r) {bytes piece : List UInt8} {a : α}
    (hreads : Reads r bytes a) (hpiece : piece <+: bytes) (hne : piece ≠ bytes) :
    ∃ e left, r piece = (.error e, left) := by
  rcases h : r piece with ⟨e | b, left⟩
  · exact ⟨e, left, rfl⟩
  · -- It would stop at the same place with more bytes left.
    exfalso
    obtain ⟨taken, rfl, htaken⟩ := hr _ _ _ h
    obtain ⟨more, rfl⟩ := hpiece
    have hwhole := hreads []
    rw [List.append_nil, List.append_assoc, htaken] at hwhole
    have hnone : left ++ more = [] := (Prod.mk.inj hwhole).2
    have hmore : more = [] := (List.append_eq_nil_iff.mp hnone).2
    exact hne (by rw [hmore, List.append_nil])

end Local

section Sink

/-- Where bytes are written to. -/
structure Sink (ε : Type) where
  /-- Of a write of these bytes after those, its failure and how many of them still get through. -/
  fails : List UInt8 → List UInt8 → Option (ε × ℕ)
  /-- The failure of a flush after those. -/
  flushFails : List UInt8 → Option ε

/-- `write_all`. -/
def Sink.writeAll (sink : Sink ε) (bytes : List UInt8) : OnBytes ε Unit := fun written =>
  match sink.fails written bytes with
  | none => (.ok (), written ++ bytes)
  | some (e, n) => (.error e, written ++ bytes.take n)

/-- `flush`. -/
def Sink.flush (sink : Sink ε) : OnBytes ε Unit := fun written =>
  match sink.flushFails written with
  | none => (.ok (), written)
  | some e => (.error e, written)

/-- A sink that takes everything, as a vector does. -/
def Sink.vec : Sink ε := ⟨fun _ _ => none, fun _ => none⟩

theorem Sink.vec_writeAll (bytes written : List UInt8) :
    (Sink.vec : Sink ε).writeAll bytes written = (.ok (), written ++ bytes) := rfl

theorem Sink.vec_flush (written : List UInt8) :
    (Sink.vec : Sink ε).flush written = (.ok (), written) := rfl

end Sink

end Wire
