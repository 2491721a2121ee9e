/-
# `Yirang.Release.Digest` — the digest of a file

A file is read in chunks of 64 KiB until a read comes to its end, and each
chunk is added to the digest.  A read that the device fails ends the loop as
well, and nothing tells the two apart.

    Evp              a library of digests
    Source, Stream   a file that may fail to be read, and where its stream is
    fileSha256       the digest of a file
    At               where a stream is between two turns of the loop
    whole_iff        when there is no digest but that of the whole file
-/
import Yirang.Bytes
import Yirang.Release.Hex

namespace Yirang.Release

/-- The digest of a sequence of updates is that of all their bytes. -/
structure Evp where
  Context : Type
  init : Context
  update : Context → Bytes → Context
  final : Context → Digest
  sha256 : Bytes → Digest
  spec : ∀ updates : List Bytes, final (updates.foldl update init) = sha256 updates.flatten

/-! ## Streams -/

/-- A file, and where a read of it fails. -/
structure Source where
  content : Bytes
  /-- The bytes before this one can be read, and neither it nor, if it is
  none, the end. -/
  fault : Option Nat := none
  /-- How many bytes before it a failing read counts, at most. -/
  counted : Nat := 0
  inside : ∀ f ∈ fault, f ≤ content.length

/-- A `std::ifstream` after a read. -/
structure Stream where
  pos : Nat := 0
  gcount : Nat := 0
  eof : Bool := false
  fail : Bool := false
  bad : Bool := false

/-- `operator bool` -/
def Stream.ok (st : Stream) : Bool := !st.fail && !st.bad

def Stream.good (st : Stream) : Bool := st.ok && !st.eof

/-- `stream.read(buffer, n)` -/
def Stream.read (st : Stream) (s : Source) (n : Nat) : Stream :=
  if st.good then
    match s.fault.filter fun f => f < st.pos + n with
    | some f =>
        let count := min s.counted (f - st.pos)
        { st with pos := st.pos + count, gcount := count, bad := true }
    | none =>
        if st.pos + n ≤ s.content.length then { st with pos := st.pos + n, gcount := n }
        else
          { st with
            pos := s.content.length
            gcount := s.content.length - st.pos
            eof := true
            fail := true }
  else { st with gcount := 0, fail := true }

/-- The first `gcount` bytes of the buffer. -/
def Stream.buffer (st : Stream) (s : Source) : Bytes :=
  (s.content.drop (st.pos - st.gcount)).take st.gcount

/-! ## `file_sha256` -/

def kReadChunkSize : Nat := 65536

/-- Which of the calls succeed that the program checks. -/
structure Attempt where
  opens : Bool := true
  allocates : Bool := true
  initialises : Bool := true
  updates : Nat → Bool := fun _ => true
  finalises : Bool := true

section Code

variable (evp : Evp) (a : Attempt) (path : String) (s : Source)

theorem read_moves {st : Stream} {s : Source} {n : Nat} (h : (st.read s n).gcount ≠ 0) :
    st.pos < (st.read s n).pos ∧ (st.read s n).pos ≤ s.content.length := by
  unfold Stream.read at h ⊢
  split
  · rename_i hgood
    rw [if_pos hgood] at h
    split
    · rename_i f hf
      have hin := s.inside f (Option.filter_eq_some_iff.mp hf).1
      simp only [hf] at h ⊢
      omega
    · rename_i hf
      simp only [hf] at h ⊢
      split
      · rename_i hfull
        rw [if_pos hfull] at h
        exact ⟨by simp only at h ⊢; omega, hfull⟩
      · rename_i hshort
        rw [if_neg hshort] at h
        exact ⟨by simp only at h ⊢; omega, Nat.le_refl _⟩
  · rename_i hbad
    rw [if_neg hbad] at h
    exact absurd rfl h

/-- The loop, at its `k`-th turn. -/
def digestLoop (st : Stream) (context : evp.Context) (k : Nat) : Except String evp.Context :=
  if st.ok then
    let st' := st.read s kReadChunkSize
    if _hread : st'.gcount = 0 then .ok context
    else if a.updates k then digestLoop st' (evp.update context (st'.buffer s)) (k + 1)
    else .error s!"cannot update sha256 digest for '{path}'"
  else .ok context
termination_by s.content.length - st.pos
decreasing_by
  have hmoves := read_moves _hread
  omega

def fileSha256 : Except String String :=
  if !a.opens then .error s!"cannot open '{path}' for hashing"
  else if !a.allocates then .error "cannot allocate digest context"
  else if !a.initialises then .error "cannot initialise sha256 digest"
  else
    match digestLoop evp a path s {} evp.init 0 with
    | .error why => .error why
    | .ok context =>
        if !a.finalises then .error s!"cannot finalise sha256 digest for '{path}'"
        else .ok (evp.final context).text

end Code

/-! ## How far a file is read -/

/-- The bytes that are counted, of all reads. -/
def Source.reached (s : Source) : Nat :=
  match s.fault with
  | none => s.content.length
  | some f => f / kReadChunkSize * kReadChunkSize + min s.counted (f % kReadChunkSize)

/-- Where the stream is at the `k`-th turn. -/
inductive At (s : Source) (k : Nat) (st : Stream) : Prop
  | reading : st.good = true → st.pos = k * kReadChunkSize → st.pos ≤ s.content.length →
      (∀ f ∈ s.fault, st.pos ≤ f) → At s k st
  | finished : st.ok = false → st.pos = s.reached → s.reached ≤ k * kReadChunkSize → At s k st

/-- What a read of one chunk does. -/
structure Reads (s : Source) (k : Nat) (st st' : Stream) : Prop where
  at_ : At s (k + 1) st'
  pos : st'.pos = st.pos + st'.gcount
  last : st'.gcount = 0 → st.pos = s.reached
  more : st'.gcount ≠ 0 → k * kReadChunkSize < s.reached

section Chunks

variable {f k pos : Nat}

/-- The chunk that `f` is in. -/
theorem chunk_of_near (hpos : pos = k * kReadChunkSize) (hle : pos ≤ f)
    (hlt : f < pos + kReadChunkSize) :
    f / kReadChunkSize * kReadChunkSize = pos ∧ f % kReadChunkSize = f - pos := by
  simp only [kReadChunkSize] at hpos hlt ⊢
  omega

theorem chunk_of_far (hpos : pos = k * kReadChunkSize) (hle : pos + kReadChunkSize ≤ f) :
    pos + kReadChunkSize ≤ f / kReadChunkSize * kReadChunkSize := by
  simp only [kReadChunkSize] at hpos hle ⊢
  omega

theorem chunk_succ : (k + 1) * kReadChunkSize = k * kReadChunkSize + kReadChunkSize :=
  Nat.succ_mul k kReadChunkSize

end Chunks

theorem kReadChunkSize_pos : 0 < kReadChunkSize := by decide

theorem read_reads {s : Source} {k : Nat} {st : Stream} (hgood : st.good = true)
    (hpos : st.pos = k * kReadChunkSize) (hle : st.pos ≤ s.content.length)
    (hfault : ∀ f ∈ s.fault, st.pos ≤ f) : Reads s k st (st.read s kReadChunkSize) := by
  have hsize := kReadChunkSize_pos
  have hnext : (k + 1) * kReadChunkSize = st.pos + kReadChunkSize := by rw [chunk_succ, hpos]
  -- a chunk that is there is read whole
  have hfull : st.pos + kReadChunkSize ≤ s.content.length →
      (∀ f ∈ s.fault, st.pos + kReadChunkSize ≤ f) → st.pos < s.reached →
      Reads s k st { st with pos := st.pos + kReadChunkSize, gcount := kReadChunkSize } := by
    intro hin hfar hmore
    refine ⟨.reading ?_ hnext.symm hin hfar, rfl, ?_, fun _ => hpos ▸ hmore⟩
    · simpa [Stream.good, Stream.ok] using hgood
    · exact fun h => absurd h (Nat.ne_of_gt hsize)
  unfold Stream.read
  rw [if_pos hgood]
  cases hf : s.fault with
  | none =>
      have hreached : s.reached = s.content.length := by rw [Source.reached, hf]
      rw [Option.filter_none]
      dsimp only
      split
      · rename_i hin
        exact hfull hin (by simp [hf]) (by omega)
      · rename_i hshort
        refine ⟨.finished (by simp [Stream.ok]) hreached.symm (by omega), ?_, ?_, ?_⟩
        · exact (Nat.add_sub_cancel' hle).symm
        · intro h
          dsimp only at h
          omega
        · intro h
          dsimp only at h
          omega
  | some f =>
      have hlow := hfault f hf
      have hhigh := s.inside f hf
      have hreached : s.reached =
          f / kReadChunkSize * kReadChunkSize + min s.counted (f % kReadChunkSize) := by
        rw [Source.reached, hf]
      by_cases hnear : f < st.pos + kReadChunkSize
      · rw [Option.filter_some_pos (by simpa using hnear)]
        obtain ⟨hdiv, hmod⟩ := chunk_of_near hpos hlow hnear
        rw [hdiv, hmod] at hreached
        refine ⟨.finished (by simp [Stream.ok]) hreached.symm (by omega), rfl, ?_, ?_⟩
        · intro h
          dsimp only at h
          omega
        · intro h
          dsimp only at h
          omega
      · rw [Option.filter_some_neg (by simpa using hnear)]
        have hfar := Nat.le_of_not_lt hnear
        have hdiv := chunk_of_far hpos hfar
        dsimp only
        rw [if_pos (Nat.le_trans hfar hhigh)]
        refine hfull (Nat.le_trans hfar hhigh) ?_ (by omega)
        rintro f' hf'
        cases hf.symm.trans hf'
        exact hfar

/-- What was added to the digest, so far and at one more turn. -/
theorem take_buffer {s : Source} {k : Nat} {st st' : Stream} (h : Reads s k st st') :
    s.content.take st.pos ++ st'.buffer s = s.content.take st'.pos := by
  rw [Stream.buffer, h.pos, Nat.add_sub_cancel, List.take_add]

/-! ## The digest -/

section Loop

variable {evp : Evp} {a : Attempt} {path : String} {s : Source}

/-- The updates from the `k`-th on succeed. -/
def UpdatesFrom (a : Attempt) (s : Source) (k : Nat) : Prop :=
  ∀ j, k ≤ j → j * kReadChunkSize < s.reached → a.updates j = true

/-- The loop ends with the digest of what was reached, if no update fails. -/
theorem digestLoop_spec {st : Stream} {k : Nat} {context : evp.Context} {updates : List Bytes}
    (hat : At s k st) (hcontext : context = updates.foldl evp.update evp.init)
    (hsofar : updates.flatten = s.content.take st.pos) :
    (UpdatesFrom a s k ∧ ∃ context', digestLoop evp a path s st context k = .ok context' ∧
      evp.final context' = evp.sha256 (s.content.take s.reached)) ∨
    (¬ UpdatesFrom a s k ∧ ∃ why, digestLoop evp a path s st context k = .error why) := by
  induction hn : s.content.length - st.pos using Nat.strongRecOn
    generalizing st k context updates with
  | ind n ih =>
  subst hn
  have hends : st.pos = s.reached → s.reached ≤ k * kReadChunkSize →
      UpdatesFrom a s k ∧ evp.final context = evp.sha256 (s.content.take s.reached) := by
    intro hpos hover
    refine ⟨fun j hj hlt => ?_, ?_⟩
    · have hmul := Nat.mul_le_mul_right kReadChunkSize hj
      omega
    · rw [hcontext, evp.spec, hsofar, hpos]
  cases hat with
  | finished hok hpos hover =>
      refine Or.inl ⟨(hends hpos hover).1, context, ?_, (hends hpos hover).2⟩
      rw [digestLoop, hok]
      rfl
  | reading hgood hpos hle hfault =>
      have hreads := read_reads hgood hpos hle hfault
      have hok : st.ok = true := (Bool.and_eq_true_iff.mp hgood).1
      rw [digestLoop, if_pos hok]
      dsimp only
      split
      · rename_i hnothing
        have hlast := hreads.last hnothing
        obtain ⟨hupdates, hfinal⟩ := hends hlast (by omega)
        exact Or.inl ⟨hupdates, context, rfl, hfinal⟩
      · rename_i hread
        have hmore := hreads.more hread
        split
        · rename_i hupdated
          have hfrom : UpdatesFrom a s k ↔ UpdatesFrom a s (k + 1) := by
            constructor
            · exact fun h j hj => h j (Nat.le_of_succ_le hj)
            · intro h j hj hlt
              rcases Nat.eq_or_lt_of_le hj with rfl | hj
              · exact hupdated
              · exact h j hj hlt
          rw [hfrom]
          have hmoves := read_moves hread
          let chunk := (st.read s kReadChunkSize).buffer s
          have hupdate : evp.update context chunk =
              (updates ++ [chunk]).foldl evp.update evp.init := by
            rw [List.foldl_append, hcontext]
            rfl
          have hadded : (updates ++ [chunk]).flatten =
              s.content.take (st.read s kReadChunkSize).pos := by
            rw [List.flatten_append, hsofar, List.flatten_singleton, take_buffer hreads]
          exact ih _ (by omega) hreads.at_ hupdate hadded rfl
        · rename_i hfailed
          exact Or.inr ⟨fun h => hfailed (h k (Nat.le_refl k) hmore), _, rfl⟩

end Loop

section Whole

/-- Every call succeeds that the program checks. -/
structure Completes (a : Attempt) (s : Source) : Prop where
  opens : a.opens = true
  allocates : a.allocates = true
  initialises : a.initialises = true
  updates : UpdatesFrom a s 0
  finalises : a.finalises = true

/-- The loop, from the beginning of the file. -/
theorem digestLoop_start (evp : Evp) (a : Attempt) (path : String) (s : Source) :
    (UpdatesFrom a s 0 ∧ ∃ context, digestLoop evp a path s {} evp.init 0 = .ok context ∧
      evp.final context = evp.sha256 (s.content.take s.reached)) ∨
    (¬ UpdatesFrom a s 0 ∧ ∃ why, digestLoop evp a path s {} evp.init 0 = .error why) := by
  have hstart : At s 0 {} :=
    .reading rfl (Nat.zero_mul _).symm (Nat.zero_le _) fun f _ => Nat.zero_le f
  have hcontext : evp.init = ([] : List Bytes).foldl evp.update evp.init := rfl
  exact digestLoop_spec hstart hcontext rfl

variable {evp : Evp} {a : Attempt} {path : String} {s : Source}

theorem fileSha256_of_completes (h : Completes a s) :
    fileSha256 evp a path s = .ok (evp.sha256 (s.content.take s.reached)).text := by
  have hloop := digestLoop_start evp a path s
  obtain ⟨-, context, hok, hfinal⟩ := hloop.resolve_right fun hfail => hfail.1 h.updates
  unfold fileSha256
  rw [h.opens, h.allocates, h.initialises, h.finalises, hok, ← hfinal]
  rfl

theorem fileSha256_of_not_completes (h : ¬ Completes a s) :
    ∃ why, fileSha256 evp a path s = .error why := by
  unfold fileSha256
  split
  · exact ⟨_, rfl⟩
  rename_i hopens
  split
  · exact ⟨_, rfl⟩
  rename_i hallocates
  split
  · exact ⟨_, rfl⟩
  rename_i hinitialises
  split
  · exact ⟨_, rfl⟩
  rename_i context hok
  split
  · exact ⟨_, rfl⟩
  rename_i hfinalises
  rcases digestLoop_start evp a path s with ⟨hupdates, -⟩ | ⟨-, why, herror⟩
  · refine absurd ⟨?_, ?_, ?_, hupdates, ?_⟩ h
    · simpa using hopens
    · simpa using hallocates
    · simpa using hinitialises
    · simpa using hfinalises
  · rw [herror] at hok
    cases hok

/-- A read fails only after the last byte was counted. -/
def Source.Readable (s : Source) : Prop :=
  ∀ f ∈ s.fault, f = s.content.length ∧ s.content.length % kReadChunkSize ≤ s.counted

theorem reached_eq_length_iff : s.reached = s.content.length ↔ s.Readable := by
  unfold Source.reached Source.Readable
  cases hf : s.fault with
  | none => simp
  | some f =>
      have hin := s.inside f hf
      simp only [Option.mem_some_iff, forall_eq', kReadChunkSize]
      constructor
      · intro h
        omega
      · rintro ⟨rfl, hcounted⟩
        omega

/-- No beginning of these bytes has their digest. -/
def Evp.Separates (evp : Evp) (content : Bytes) : Prop :=
  ∀ n, evp.sha256 (content.take n) = evp.sha256 content → content.take n = content

/-- A digest that is returned is that of the whole file. -/
def Whole (evp : Evp) (s : Source) (res : Except String String) : Prop :=
  ∀ text, res = .ok text → text = (evp.sha256 s.content).text

/-- `file_sha256` returns an error or the digest of the whole file exactly if
a call fails that it checks, or no read fails before all bytes were counted. -/
theorem whole_iff (h : evp.Separates s.content) :
    Whole evp s (fileSha256 evp a path s) ↔ ¬ Completes a s ∨ s.Readable := by
  rw [← reached_eq_length_iff]
  by_cases hall : Completes a s
  · rw [fileSha256_of_completes hall]
    constructor
    · intro hwhole
      have hdigest := h _ (Digest.text_injective (hwhole _ rfl))
      have hlen := congrArg List.length hdigest
      rw [List.length_take] at hlen
      have hle : s.reached ≤ s.content.length := by
        unfold Source.reached
        cases hf : s.fault with
        | none => exact Nat.le_refl _
        | some f =>
            have hin := s.inside f hf
            simp only [kReadChunkSize]
            omega
      exact Or.inr (by omega)
    · rintro (hno | hreached) text htext
      · exact absurd hall hno
      · cases htext
        rw [hreached, List.take_length]
  · have herror : ∃ why, fileSha256 evp a path s = .error why := fileSha256_of_not_completes hall
    obtain ⟨why, herror⟩ := herror
    rw [herror]
    exact iff_of_true (fun _ ht => by cases ht) (Or.inl hall)

end Whole

namespace Sample

def hello : Digest :=
  #v[0x2c, 0xf2, 0x4d, 0xba, 0x5f, 0xb0, 0xa3, 0x0e, 0x26, 0xe8, 0x3b, 0x2a, 0xc5, 0xb9, 0xe2, 0x9e,
    0x1b, 0x16, 0x1e, 0x5c, 0x1f, 0xa7, 0x42, 0x5e, 0x73, 0x04, 0x33, 0x62, 0x93, 0x8b, 0x98, 0x24]

/-- What two files have for digests. -/
def evp : Evp where
  Context := Bytes
  init := []
  update := (· ++ ·)
  final context := if context = ascii "hello" then hello else .ofNothing
  sha256 content := if content = ascii "hello" then hello else .ofNothing
  spec updates := by rw [List.foldl_append_eq_append]; simp

/-- A file whose device fails at once. -/
def broken : Source where
  content := ascii "hello"
  fault := some 0
  inside := by simp

def intact : Source where
  content := ascii "hello"
  inside := by simp

theorem separates : evp.Separates (ascii "hello") := by
  intro n h
  by_contra hne
  simp only [evp, if_neg hne, if_true] at h
  exact absurd h (by decide)

end Sample

/-- The digest of a file that can be read. -/
theorem whole_iff_hello :
    Sample.evp.Separates Sample.intact.content ∧
    Whole Sample.evp Sample.intact (fileSha256 Sample.evp {} "app" Sample.intact) :=
  ⟨Sample.separates, (whole_iff Sample.separates).mpr (Or.inr fun _ hf => by cases hf)⟩

/-- A file that cannot be read has the digest of an empty one. -/
theorem broken_is_digested :
    fileSha256 Sample.evp {} "app" Sample.broken = .ok Digest.ofNothing.text ∧
    ¬ Whole Sample.evp Sample.broken (fileSha256 Sample.evp {} "app" Sample.broken) := by
  have hcompletes : Completes {} Sample.broken := ⟨rfl, rfl, rfl, fun _ _ _ => rfl, rfl⟩
  have hdigest : fileSha256 Sample.evp {} "app" Sample.broken = .ok Digest.ofNothing.text :=
    fileSha256_of_completes hcompletes
  refine ⟨hdigest, fun hwhole => ?_⟩
  have hsame := Digest.text_injective (hwhole _ hdigest)
  exact absurd hsame (by decide)

end Yirang.Release
