import Tars.Library.Scripts
import Tars.Tup.UniPacket
import Tars.Tup.Writer

/-!
# Copies of writers

A program has any number of `BufferWriter` objects, some of them as the stream `os` of a packet, and
works on them in any order. Assignment appends to what the target holds and cuts the result to the
length of the source, so that it copies the source only where the source is what the cut leaves.
-/

namespace Tars

open Blocks Scripts

/-- The members of a `UniPacket`, but for the two streams. -/
structure UniMembers extends RequestPacket where
  /-- `_data`. -/
  data : List (Bytes × Bytes)
  /-- `_iVer`. -/
  iVer : BitVec 16
  deriving DecidableEq

/-- The constructor of `UniPacket`, which sets both versions to 3. -/
def UniMembers.init : UniMembers where
  iVersion := 3
  cPacketType := 0
  iMessageType := 0
  iRequestId := 0
  sServantName := []
  sFuncName := []
  sBuffer := []
  iTimeout := 0
  context := []
  status := []
  data := []
  iVer := 3

/-- The objects of a program by their names, where a packet has the name of its stream. -/
structure Objects where
  /-- The memory, with the buffers of all writers. -/
  heap : Heap := {}
  /-- The writers, by the numbers of their objects. -/
  writers : ℕ → Option Writer := fun _ => none
  /-- The other members of the packets. -/
  packets : ℕ → Option UniMembers := fun _ => none

/-- What a program does with an object, and maybe with a second one. -/
inductive ObjectAction where
  /-- The constructor. -/
  | construct (i : ℕ)
  /-- The copy constructor. -/
  | copyConstruct (i j : ℕ)
  /-- The destructor. -/
  | destroy (i : ℕ)
  /-- One of the macros, or `writeBuf` from elsewhere. -/
  | write (i : ℕ) (buf : Bytes)
  /-- `reset`. -/
  | reset (i : ℕ)
  /-- `reserve`. -/
  | reserve (i len : ℕ)
  /-- `swap` with a vector. -/
  | swapVector (i : ℕ)
  /-- `swap` with a writer. -/
  | swap (i j : ℕ)
  /-- `operator=`. -/
  | assign (i j : ℕ)
  /-- The constructor of a packet. -/
  | constructPacket (i : ℕ)
  /-- The copy constructor of a packet. -/
  | copyPacket (i j : ℕ)
  /-- The assignment of a packet. -/
  | assignPacket (i j : ℕ)
  /-- Any change of the other members of a packet. -/
  | changePacket (i : ℕ) (members : UniMembers)

namespace Objects

/-- The content of a writer, as `getByteBuffer` returns it. -/
def bytes (t : Objects) (i : ℕ) : Option Bytes := (t.writers i).bind (getByteBuffer t.heap)

/-- `getLength`, the member `_len` of a writer that exists. -/
def getLength (t : Objects) (i : ℕ) : Option ℕ := (t.writers i).map Writer.len

/-- A writer gets a new value, together with the memory. -/
def set (t : Objects) (i : ℕ) (h : Heap) (os : Option Writer) : Objects :=
  { t with heap := h, writers := Function.update t.writers i os }

/-- The constructor, of an object that does not exist yet. -/
def construct (t : Objects) (i : ℕ) : Option Objects :=
  if (t.writers i).isNone then some (t.set i t.heap (some bufferWriter)) else none

/-- The copy constructor, which appends the source's bytes to a new writer and takes over its
length. -/
def copyConstruct (t : Objects) (i j : ℕ) : Option Objects :=
  if (t.writers i).isNone then do
    let bw ← t.writers j
    let (h, os) ← writeBuf t.heap bufferWriter bw.buf bw.len
    return t.set i h (some { os with len := bw.len })
  else none

/-- The destructor, which frees the buffer and takes the packet away with it. -/
def destroy (t : Objects) (i : ℕ) : Option Objects := do
  let os ← t.writers i
  let h ← deleteBuffer t.heap os.buf
  return { t.set i h none with packets := Function.update t.packets i none }

/-- One of the writing operations, which appends its bytes to the writer. -/
def write (t : Objects) (i : ℕ) (buf : Bytes) : Option Objects := do
  let os ← t.writers i
  let (h, os) ← tarsWriteTypeBuf t.heap os buf
  return t.set i h (some os)

/-- `reset`, which sets the length to 0 and keeps the buffer. -/
def reset (t : Objects) (i : ℕ) : Option Objects := do
  let os ← t.writers i
  return t.set i t.heap (some { os with len := 0 })

/-- `reserve`, which replaces a buffer that is shorter than the size asked for. -/
def reserve (t : Objects) (i len : ℕ) : Option Objects := do
  let os ← t.writers i
  let (h, os) ← Tars.reserve t.heap os len
  return t.set i h (some os)

/-- `swap` with a writer, which exchanges all members of the two. -/
def swap (t : Objects) (i j : ℕ) : Option Objects := do
  let os ← t.writers i
  let buf ← t.writers j
  return (t.set i t.heap (some buf)).set j t.heap (some os)

/-- `operator=`, of which both sides may be the same object: the length of the source is read
again after the bytes have been appended. -/
def assign (t : Objects) (i j : ℕ) : Option Objects := do
  let os ← t.writers i
  let buf ← t.writers j
  let (h, os) ← writeBuf t.heap { os with reverse := true } buf.buf buf.len
  let t := t.set i h (some os)
  let buf ← t.writers j
  return t.set i h (some { os with len := buf.len })

/-- The constructor of a packet, which constructs its writer first. -/
def constructPacket (t : Objects) (i : ℕ) : Option Objects := do
  let t ← t.construct i
  return { t with packets := Function.update t.packets i (some .init) }

/-- The assignment of a packet, member by member: its stream is assigned by the stream's own
operator. -/
def assignPacket (t : Objects) (i j : ℕ) : Option Objects := do
  let _ ← t.packets i
  let tup ← t.packets j
  let t ← t.assign i j
  return { t with packets := Function.update t.packets i (some tup) }

/-- The copy constructor of a packet, which assigns to the new packet. -/
def copyPacket (t : Objects) (i j : ℕ) : Option Objects := do
  let _ ← t.packets j
  let t ← t.constructPacket i
  t.assignPacket i j

/-- A change of the other members of a packet. -/
def changePacket (t : Objects) (i : ℕ) (members : UniMembers) : Option Objects := do
  let _ ← t.packets i
  return { t with packets := Function.update t.packets i (some members) }

/-- One action. Only `swap` with a vector returns something, the content. -/
def step (t : Objects) : ObjectAction → Option (Objects × List Bytes)
  | .construct i => (t.construct i).map (·, [])
  | .copyConstruct i j => (t.copyConstruct i j).map (·, [])
  | .destroy i => (t.destroy i).map (·, [])
  | .write i buf => (t.write i buf).map (·, [])
  | .reset i => (t.reset i).map (·, [])
  | .reserve i len => (t.reserve i len).map (·, [])
  | .swapVector i => (t.bytes i).map fun bs => (t, [bs])
  | .swap i j => (t.swap i j).map (·, [])
  | .assign i j => (t.assign i j).map (·, [])
  | .constructPacket i => (t.constructPacket i).map (·, [])
  | .copyPacket i j => (t.copyPacket i j).map (·, [])
  | .assignPacket i j => (t.assignPacket i j).map (·, [])
  | .changePacket i members => (t.changePacket i members).map (·, [])

/-! ### Ownership -/

/-- Every writer owns its buffer, which is the invariant of all runs. -/
structure Owned (t : Objects) : Prop where
  /-- Every writer holds some content. -/
  holds : ∀ i os, t.writers i = some os → ∃ content, Contains t.heap os content
  /-- It may replace its buffer. -/
  reverse : ∀ i os, t.writers i = some os → os.reverse = true
  /-- No two writers have the same buffer. -/
  apart : ∀ i j os buf p, i ≠ j → t.writers i = some os → t.writers j = some buf →
    os.buf = some p → buf.buf ≠ some p

section Ownership

variable {t t' : Objects} {i j : ℕ} {h : Heap} {os start buf : Writer} {own own' : Pointer}
  {a b content : Bytes}

/-- The content of a writer is what it holds in the memory. -/
theorem bytes_of_holds (hi : t.writers i = some os) (hold : Contains t.heap os content) :
    t.bytes i = some content := by
  rw [bytes, hi, Option.bind_some, hold.getByteBuffer]

/-- Only writers have a content, and it is what they hold. -/
theorem Owned.writer (ho : t.Owned) (hi : t.bytes i = some content) :
    ∃ os, t.writers i = some os ∧ Contains t.heap os content := by
  obtain ⟨os, hos, -⟩ := Option.bind_eq_some_iff.mp hi
  obtain ⟨content', hold⟩ := ho.holds i os hos
  have heq := (bytes_of_holds hos hold).symm.trans hi
  exact ⟨os, hos, Option.some.inj heq ▸ hold⟩

/-- A pointer is not the buffer of another writer than `i`. -/
def Apart (t : Objects) (i : ℕ) (own : Pointer) : Prop :=
  ∀ j buf p, j ≠ i → t.writers j = some buf → buf.buf = some p → own ≠ some p

/-- The buffer of a writer is no other writer's. -/
theorem Owned.own_apart (ho : t.Owned) (hi : t.writers i = some os) : t.Apart i os.buf :=
  fun j _ _ hji hj hp hown => ho.apart i j _ _ _ hji.symm hi hj hown hp

/-- What is done within the block of a writer, or to a block of its own, concerns no other one. -/
theorem Owned.others (ho : t.Owned) (hapart : t.Apart i own) (hframe : Frame t.heap own h own')
    (hji : j ≠ i) (hj : t.writers j = some buf) :
    (∃ content, Contains t.heap buf content ∧ Contains h buf content) ∧
      ∀ p, buf.buf = some p → own' ≠ some p := by
  obtain ⟨content, hold⟩ := ho.holds j buf hj
  refine ⟨⟨content, hold, hold.frame hframe fun p => hapart j buf p hji hj⟩, fun p hp => ?_⟩
  obtain ⟨cells, hcells⟩ := hold.live hp
  exact (hframe p cells (hapart j buf p hji hj hp) hcells).2

/-- The other writers keep their contents when one changes within its own block. -/
theorem Owned.bytes_others (ho : t.Owned) (hapart : t.Apart i own)
    (hframe : Frame t.heap own h own') (new : Option Writer) (hji : j ≠ i) :
    (t.set i h new).bytes j = t.bytes j := by
  have hset : (t.set i h new).writers j = t.writers j := Function.update_of_ne hji _ _
  cases hj : t.writers j with
  | none => rw [bytes, bytes, hset, hj, Option.bind_none, Option.bind_none]
  | some buf =>
    obtain ⟨⟨content, hold, hold'⟩, -⟩ := ho.others hapart hframe hji hj
    rw [bytes_of_holds hj hold, bytes_of_holds (hset.trans hj) hold']

/-- **One writer changes or goes.** The others own what they owned. -/
theorem Owned.change (ho : t.Owned) (hapart : t.Apart i own) (hframe : Frame t.heap own h own')
    {new : Option Writer}
    (hnew : ∀ os, new = some os →
      os.buf = own' ∧ os.reverse = true ∧ ∃ content, Contains h os content) :
    (t.set i h new).Owned := by
  have hsame : (t.set i h new).writers i = new := Function.update_self ..
  have hother {j : ℕ} (hji : j ≠ i) : (t.set i h new).writers j = t.writers j :=
    Function.update_of_ne hji _ _
  refine ⟨fun j buf hj => ?_, fun j buf hj => ?_, fun j k buf buf' p hjk hj hk hp => ?_⟩
  · by_cases hji : j = i
    · subst j
      exact (hnew buf (hsame.symm.trans hj)).2.2
    · obtain ⟨⟨content, -, hold⟩, -⟩ := ho.others hapart hframe hji ((hother hji).symm.trans hj)
      exact ⟨content, hold⟩
  · by_cases hji : j = i
    · subst j
      exact (hnew buf (hsame.symm.trans hj)).2.1
    · exact ho.reverse j buf ((hother hji).symm.trans hj)
  · by_cases hji : j = i
    · subst j
      rw [hother hjk.symm] at hk
      rw [(hnew buf (hsame.symm.trans hj)).1] at hp
      exact fun hp' => (ho.others hapart hframe hjk.symm hk).2 p hp' hp
    · rw [hother hji] at hj
      by_cases hki : k = i
      · subst k
        rw [(hnew buf' (hsame.symm.trans hk)).1]
        exact (ho.others hapart hframe hji hj).2 p hp
      · rw [hother hki] at hk
        exact ho.apart j k buf buf' p hjk hj hk hp

/-- The other members of the packets own nothing, so they may change without any effect on the
storage. -/
theorem Owned.packets (ho : t.Owned) (packets : ℕ → Option UniMembers) :
    { t with packets }.Owned := ⟨ho.holds, ho.reverse, ho.apart⟩

/-- One object may change, and its stream has a new content, if there still is one. -/
structure Changes (t : Objects) (i : ℕ) (content : Option Bytes) (t' : Objects) : Prop where
  /-- Every writer owns its buffer. -/
  owned : t'.Owned
  /-- The contents: that of the object is the new one, and the others stay. -/
  bytes : t'.bytes = Function.update t.bytes i content
  /-- The other members of the other packets. -/
  packets : ∀ k, k ≠ i → t'.packets k = t.packets k

/-- **One writer changes.** The contents of the others are as before. -/
theorem Owned.becomes (ho : t.Owned) (hapart : t.Apart i start.buf)
    (hreverse : start.reverse = true) (hbecomes : Becomes t.heap start h os content) :
    Changes t i (some content) (t.set i h (some os)) := by
  refine ⟨?_, ?_, fun _ _ => rfl⟩
  · apply ho.change hapart hbecomes.frame
    rintro _ ⟨⟩
    exact ⟨rfl, hbecomes.reverse.trans hreverse, content, hbecomes.contains⟩
  · funext j
    by_cases hji : j = i
    · subst j
      rw [Function.update_self]
      exact bytes_of_holds (Function.update_self ..) hbecomes.contains
    · rw [Function.update_of_ne hji, ho.bytes_others hapart hbecomes.frame _ hji]

/-- An operation that does nothing changes the object to what it already was. -/
theorem Changes.refl (ho : t.Owned) (i : ℕ) : Changes t i (t.bytes i) t :=
  ⟨ho, (Function.update_eq_self i t.bytes).symm, fun _ _ => rfl⟩

/-- One change of an object after another one is a change with the second content. -/
theorem Changes.trans {t'' : Objects} {c c' : Option Bytes} (hfirst : Changes t i c t')
    (hnext : Changes t' i c' t'') : Changes t i c' t'' := by
  refine ⟨hnext.owned, ?_, fun k hki => (hnext.packets k hki).trans (hfirst.packets k hki)⟩
  rw [hnext.bytes, hfirst.bytes, Function.update_idem]

/-- A change of the other members of the packet, too. -/
theorem Changes.setPacket {c : Option Bytes} (h : Changes t i c t') (members : Option UniMembers) :
    Changes t i c { t' with packets := Function.update t'.packets i members } := by
  refine ⟨h.owned.packets _, h.bytes, fun k hki => ?_⟩
  exact (Function.update_of_ne hki _ _).trans (h.packets k hki)

end Ownership

/-! ### Contents -/

section Operations

variable {t t' : Objects} {i j len : ℕ} {os buf : Writer} {values a b : Bytes}

/-- A new writer is empty and concerns no other object. -/
theorem construct_spec (ho : t.Owned) (h : t.construct i = some t') :
    Changes t i (some []) t' := by
  rw [construct] at h
  split at h
  · obtain rfl := Option.some.inj h
    exact ho.becomes (fun _ _ p _ _ _ => null_ne p) rfl (.refl .empty)
  · cases h

/-- A new writer that is copied from another one holds what that one holds. -/
theorem copyConstruct_spec (ho : t.Owned) (hi : t.writers i = none) (hj : t.bytes j = some b) :
    ∃ t', t.copyConstruct i j = some t' ∧ Changes t i (some b) t' := by
  obtain ⟨bw, hbw, hold⟩ := ho.writer hj
  have hempty : Contains t.heap bufferWriter [] := .empty
  obtain ⟨h, os, hwrite, hbecomes⟩ := writeBuf_spec hempty rfl hold fun p _ => null_ne p
  have hlen : os.len = bw.len := by rw [hbecomes.contains.len_eq, hold.len_eq, List.nil_append]
  have hos : { os with len := bw.len } = os := by rw [← hlen]
  refine ⟨t.set i h (some os), ?_, ?_⟩
  · simp only [copyConstruct, hi, hbw, hwrite, hos, Option.isNone_none, if_true, bind,
      Option.bind_some, pure]
  · exact ho.becomes (fun _ _ p _ _ _ => null_ne p) rfl hbecomes

/-- A destroyed writer is gone, and the other objects keep what they hold. -/
theorem destroy_spec (ho : t.Owned) (h : t.destroy i = some t') : Changes t i none t' := by
  obtain ⟨os, hos, h⟩ := Option.bind_eq_some_iff.mp h
  obtain ⟨heap, hdelete, h⟩ := Option.bind_eq_some_iff.mp h
  obtain rfl := Option.some.inj h
  obtain ⟨content, hold⟩ := ho.holds i os hos
  obtain ⟨heap', hdelete', -, hsame⟩ := deleteBuffer_spec fun p => hold.live (p := p)
  obtain rfl := Option.some.inj (hdelete'.symm.trans hdelete)
  have hframe : Frame t.heap os.buf heap' none :=
    fun p cells hp hcells => ⟨(hsame p hp).trans hcells, null_ne p⟩
  have hgone : (t.set i heap' none).Owned :=
    ho.change (ho.own_apart hos) hframe fun os hnone => absurd hnone (Option.some_ne_none os).symm
  refine Changes.setPacket (t := t) ⟨hgone, funext fun j => ?_, fun _ _ => rfl⟩ none
  by_cases hji : j = i
  · subst j
    have hnone : (t.set i heap' none).writers i = none := Function.update_self ..
    rw [Function.update_self]
    rw [bytes, hnone, Option.bind_none]
  · rw [Function.update_of_ne hji]
    exact ho.bytes_others (ho.own_apart hos) hframe none hji

/-- Writing appends the bytes to the content of one object. -/
theorem write_spec (ho : t.Owned) (h : t.write i values = some t') :
    Changes t i ((t.bytes i).map (· ++ values)) t' := by
  obtain ⟨os, hos, h⟩ := Option.bind_eq_some_iff.mp h
  obtain ⟨content, hold⟩ := ho.holds i os hos
  obtain ⟨heap, os', hwrite, hbecomes⟩ :=
    tarsWriteTypeBuf_spec hold (ho.reverse i os hos) values
  rw [hwrite] at h
  obtain rfl := Option.some.inj h
  rw [bytes_of_holds hos hold, Option.map_some]
  exact ho.becomes (ho.own_apart hos) (ho.reverse i os hos) hbecomes

/-- After `reset` nothing is left of the content, and the other objects keep theirs. -/
theorem reset_spec (ho : t.Owned) (h : t.reset i = some t') : Changes t i (some []) t' := by
  obtain ⟨os, hos, h⟩ := Option.bind_eq_some_iff.mp h
  obtain rfl := Option.some.inj h
  obtain ⟨content, hold⟩ := ho.holds i os hos
  exact ho.becomes (ho.own_apart hos) (ho.reverse i os hos)
    ⟨hold.take 0 (Nat.zero_le _), rfl, .refl _ _⟩

/-- `reserve` keeps the content of every object, also of the one whose storage is replaced. -/
theorem reserve_spec (ho : t.Owned) (h : t.reserve i len = some t') :
    Changes t i (t.bytes i) t' ∧ t'.packets = t.packets := by
  obtain ⟨os, hos, h⟩ := Option.bind_eq_some_iff.mp h
  obtain ⟨⟨heap, os'⟩, hreserve, h⟩ := Option.bind_eq_some_iff.mp h
  obtain rfl := Option.some.inj h
  obtain ⟨content, hold⟩ := ho.holds i os hos
  rw [bytes_of_holds hos hold]
  exact ⟨ho.becomes (ho.own_apart hos) (ho.reverse i os hos) (Tars.reserve_spec hold hreserve), rfl⟩

/-- `swap` exchanges the contents of the two writers and leaves the packets. -/
theorem swap_spec (ho : t.Owned) (h : t.swap i j = some t') :
    t'.Owned ∧ ∀ k, t'.packets k = t.packets k ∧ t'.bytes k = t.bytes (Equiv.swap i j k) := by
  obtain ⟨os, hos, h⟩ := Option.bind_eq_some_iff.mp h
  obtain ⟨buf, hbuf, h⟩ := Option.bind_eq_some_iff.mp h
  obtain rfl := Option.some.inj h
  have hwriters (k : ℕ) : ((t.set i t.heap (some buf)).set j t.heap (some os)).writers k =
      t.writers (Equiv.swap i j k) := by
    by_cases hkj : k = j
    · subst k
      rw [Equiv.swap_apply_right, hos]
      exact Function.update_self ..
    · refine (Function.update_of_ne hkj _ _).trans ?_
      by_cases hki : k = i
      · subst k
        rw [Equiv.swap_apply_left, hbuf]
        exact Function.update_self ..
      · rw [Equiv.swap_apply_of_ne_of_ne hki hkj]
        exact Function.update_of_ne hki _ _
  refine ⟨⟨fun k os hk => ?_, fun k os hk => ?_, fun k l os os' p hkl hk hl => ?_⟩,
    fun k => ⟨rfl, ?_⟩⟩
  · exact ho.holds _ os ((hwriters k).symm.trans hk)
  · exact ho.reverse _ os ((hwriters k).symm.trans hk)
  · exact ho.apart _ _ os os' p ((Equiv.swap i j).injective.ne hkl)
      ((hwriters k).symm.trans hk) ((hwriters l).symm.trans hl)
  · rw [bytes, hwriters]
    rfl

/-- The content of the source is appended, and the length of the source is the new length. -/
theorem assign_spec (ho : t.Owned) (hij : i ≠ j) (hi : t.bytes i = some a)
    (hj : t.bytes j = some b) :
    ∃ t', t.assign i j = some t' ∧ t'.packets = t.packets ∧
      Changes t i (some ((a ++ b).take b.length)) t' := by
  obtain ⟨os, hos, hold⟩ := ho.writer hi
  obtain ⟨buf, hbuf, hsrc⟩ := ho.writer hj
  have hreverse : { os with reverse := true } = os := by rw [← ho.reverse i os hos]
  obtain ⟨h, os', hwrite, hbecomes⟩ := writeBuf_spec hold (ho.reverse i os hos) hsrc
    fun p hp hown => ho.apart i j _ _ p hij hos hbuf hown hp
  have hsame : (t.set i h (some os')).writers j = some buf :=
    (Function.update_of_ne hij.symm _ _).trans hbuf
  refine ⟨t.set i h (some { os' with len := buf.len }), ?_, rfl, ?_⟩
  · simp only [assign, hos, hbuf, hreverse, hwrite, hsame, bind, Option.bind_some, pure]
    simp only [set, Function.update_idem]
  · rw [hsrc.len_eq]
    have htake := hbecomes.contains.take b.length (by simp)
    exact ho.becomes (ho.own_apart hos) (ho.reverse i os hos)
      ⟨htake, hbecomes.reverse, hbecomes.frame⟩

/-- With the same writer on both sides, the content is doubled if the result exists at all. -/
theorem assign_self_spec (ho : t.Owned) (hi : t.bytes i = some a) :
    (a ≠ [] ∧ t.assign i i = none) ∨
      ∃ t', t.assign i i = some t' ∧ t'.packets = t.packets ∧
        Changes t i (some (a ++ a)) t' := by
  obtain ⟨os, hos, hold⟩ := ho.writer hi
  have hreverse : { os with reverse := true } = os := by rw [← ho.reverse i os hos]
  obtain ⟨hne, hnone⟩ | ⟨h, os', hwrite, hbecomes⟩ := writeBuf_self hold (ho.reverse i os hos)
  · left
    refine ⟨hne, ?_⟩
    simp only [assign, hos, hreverse, hnone, bind, Option.bind_some, Option.bind_none]
  · right
    have hsame : (t.set i h (some os')).writers i = some os' := Function.update_self ..
    refine ⟨t.set i h (some os'), ?_, rfl, ?_⟩
    · simp only [assign, hos, hreverse, hwrite, hsame, bind, Option.bind_some, pure]
      simp only [set, Function.update_idem]
    · exact ho.becomes (ho.own_apart hos) (ho.reverse i os hos) hbecomes

/-- Whatever a copy construction copies, it changes only the new object. -/
theorem copyConstruct_changes (ho : t.Owned) (h : t.copyConstruct i j = some t') :
    ∃ content, Changes t i content t' := by
  have hi : t.writers i = none := by
    by_contra hi
    rw [copyConstruct, if_neg (by simpa using hi)] at h
    cases h
  have hj : ∃ bw, t.writers j = some bw := by
    rw [copyConstruct, if_pos (by simp [hi])] at h
    obtain ⟨bw, hbw, -⟩ := Option.bind_eq_some_iff.mp h
    exact ⟨bw, hbw⟩
  obtain ⟨bw, hbw⟩ := hj
  obtain ⟨b, hold⟩ := ho.holds j bw hbw
  obtain ⟨t₁, hcopy, hchanges⟩ := copyConstruct_spec ho hi (bytes_of_holds hbw hold)
  obtain rfl := Option.some.inj (hcopy.symm.trans h)
  exact ⟨_, hchanges⟩

/-- Whatever an assignment copies, it changes only the object on its left. -/
theorem assign_changes (ho : t.Owned) (h : t.assign i j = some t') :
    ∃ content, Changes t i content t' := by
  obtain ⟨os, hos, h'⟩ := Option.bind_eq_some_iff.mp h
  obtain ⟨buf, hbuf, -⟩ := Option.bind_eq_some_iff.mp h'
  obtain ⟨a, hold⟩ := ho.holds i os hos
  obtain ⟨b, hsrc⟩ := ho.holds j buf hbuf
  have hi := bytes_of_holds hos hold
  by_cases hij : i = j
  · subst j
    obtain ⟨-, hnone⟩ | ⟨t₁, hassign, -, hchanges⟩ := assign_self_spec ho hi
    · rw [hnone] at h
      cases h
    · obtain rfl := Option.some.inj (hassign.symm.trans h)
      exact ⟨_, hchanges⟩
  · obtain ⟨t₁, hassign, -, hchanges⟩ := assign_spec ho hij hi (bytes_of_holds hbuf hsrc)
    obtain rfl := Option.some.inj (hassign.symm.trans h)
    exact ⟨_, hchanges⟩

/-- A new packet has an empty stream, and all other objects keep what they had. -/
theorem constructPacket_spec (ho : t.Owned) (h : t.constructPacket i = some t') :
    Changes t i (some []) t' := by
  obtain ⟨t₁, hconstruct, h⟩ := Option.bind_eq_some_iff.mp h
  obtain rfl := Option.some.inj h
  exact (construct_spec ho hconstruct).setPacket _

/-- The result of an assignment of a packet is some content of its own stream, and nothing else
changes. -/
theorem assignPacket_changes (ho : t.Owned) (h : t.assignPacket i j = some t') :
    ∃ content, Changes t i content t' := by
  obtain ⟨_, _, h⟩ := Option.bind_eq_some_iff.mp h
  obtain ⟨tup, _, h⟩ := Option.bind_eq_some_iff.mp h
  obtain ⟨t₁, hassign, h⟩ := Option.bind_eq_some_iff.mp h
  obtain rfl := Option.some.inj h
  obtain ⟨content, hchanges⟩ := assign_changes ho hassign
  exact ⟨content, hchanges.setPacket _⟩

end Operations

end Objects

/-- The objects that an action may change. `reserve` and the swap with a vector change no
content. -/
def ObjectAction.Touches : ObjectAction → ℕ → Prop
  | .construct i, k => k = i
  | .copyConstruct i _, k => k = i
  | .destroy i, k => k = i
  | .write i _, k => k = i
  | .reset i, k => k = i
  | .reserve _ _, _ => False
  | .swapVector _, _ => False
  | .swap i j, k => k = i ∨ k = j
  | .assign i _, k => k = i
  | .constructPacket i, k => k = i
  | .copyPacket i _, k => k = i
  | .assignPacket i _, k => k = i
  | .changePacket i _, k => k = i

namespace Objects

/-! ### Steps and runs -/

section Runs

variable {t t' : Objects} {action : ObjectAction} {as : List ObjectAction} {es : List Bytes}
  {i j k : ℕ} {a b : Bytes}

/-- An object: what its stream holds, and its other members if it is a packet. -/
def object (t : Objects) (k : ℕ) : Option Bytes × Option UniMembers := (t.bytes k, t.packets k)

/-- Where only one object is changed, all others stay as they are. -/
theorem Changes.keeps {content : Option Bytes} (h : Changes t i content t') :
    t'.Owned ∧ ∀ k, ¬k = i → t'.object k = t.object k := by
  refine ⟨h.owned, fun k hki => ?_⟩
  rw [object, object, h.bytes, Function.update_of_ne hki, h.packets k hki]

/-- **One step.** Ownership is kept, and an object that the action does not change is as it was. -/
theorem step_spec (ho : t.Owned) (h : t.step action = some (t', es)) :
    t'.Owned ∧ ∀ k, ¬action.Touches k → t'.object k = t.object k := by
  cases action with
  | construct i =>
    obtain ⟨_, hstep, ⟨⟩⟩ := Option.map_eq_some_iff.mp h
    exact (construct_spec ho hstep).keeps
  | copyConstruct i j =>
    obtain ⟨_, hstep, ⟨⟩⟩ := Option.map_eq_some_iff.mp h
    obtain ⟨_, hchanges⟩ := copyConstruct_changes ho hstep
    exact hchanges.keeps
  | destroy i =>
    obtain ⟨_, hstep, ⟨⟩⟩ := Option.map_eq_some_iff.mp h
    exact (destroy_spec ho hstep).keeps
  | write i buf =>
    obtain ⟨_, hstep, ⟨⟩⟩ := Option.map_eq_some_iff.mp h
    exact (write_spec ho hstep).keeps
  | reset i =>
    obtain ⟨_, hstep, ⟨⟩⟩ := Option.map_eq_some_iff.mp h
    exact (reset_spec ho hstep).keeps
  | reserve i len =>
    obtain ⟨_, hstep, ⟨⟩⟩ := Option.map_eq_some_iff.mp h
    obtain ⟨hchanges, hpackets⟩ := reserve_spec ho hstep
    refine ⟨hchanges.owned, fun k _ => ?_⟩
    rw [object, object, hchanges.bytes, Function.update_eq_self, hpackets]
  | swapVector i =>
    obtain ⟨_, -, ⟨⟩⟩ := Option.map_eq_some_iff.mp h
    exact ⟨ho, fun _ _ => rfl⟩
  | swap i j =>
    obtain ⟨_, hstep, ⟨⟩⟩ := Option.map_eq_some_iff.mp h
    obtain ⟨hnext, hswap⟩ := swap_spec ho hstep
    refine ⟨hnext, fun k hk => ?_⟩
    obtain ⟨hki, hkj⟩ := not_or.mp hk
    rw [object, object, (hswap k).1, (hswap k).2, Equiv.swap_apply_of_ne_of_ne hki hkj]
  | assign i j =>
    obtain ⟨_, hstep, ⟨⟩⟩ := Option.map_eq_some_iff.mp h
    obtain ⟨_, hchanges⟩ := assign_changes ho hstep
    exact hchanges.keeps
  | constructPacket i =>
    obtain ⟨_, hstep, ⟨⟩⟩ := Option.map_eq_some_iff.mp h
    exact (constructPacket_spec ho hstep).keeps
  | copyPacket i j =>
    obtain ⟨_, hstep, ⟨⟩⟩ := Option.map_eq_some_iff.mp h
    obtain ⟨_, _, hstep⟩ := Option.bind_eq_some_iff.mp hstep
    obtain ⟨_, hconstruct, hassign⟩ := Option.bind_eq_some_iff.mp hstep
    have hfirst := constructPacket_spec ho hconstruct
    obtain ⟨_, hnext⟩ := assignPacket_changes hfirst.owned hassign
    exact (hfirst.trans hnext).keeps
  | assignPacket i j =>
    obtain ⟨_, hstep, ⟨⟩⟩ := Option.map_eq_some_iff.mp h
    obtain ⟨_, hchanges⟩ := assignPacket_changes ho hstep
    exact hchanges.keeps
  | changePacket i members =>
    obtain ⟨_, hstep, ⟨⟩⟩ := Option.map_eq_some_iff.mp h
    obtain ⟨_, -, hstep⟩ := Option.bind_eq_some_iff.mp hstep
    obtain rfl := Option.some.inj hstep
    exact ((Changes.refl ho i).setPacket _).keeps

/-- Every writer owns its buffer in every reachable state. -/
theorem Owned.of_reachable (h : Reachable step {} t) : t.Owned := by
  apply h.invariant (fun _ _ _ _ ho hstep => (step_spec ho hstep).1)
  exact ⟨fun _ os hi => absurd hi (Option.some_ne_none os).symm,
    fun _ os hi => absurd hi (Option.some_ne_none os).symm,
    fun _ _ os _ _ _ hi => absurd hi (Option.some_ne_none os).symm⟩

/-- `getLength` is the length of the content, so it can be asked instead of the bytes. -/
theorem Owned.getLength_eq (ho : t.Owned) (k : ℕ) :
    t.getLength k = (t.bytes k).map List.length := by
  cases hk : t.writers k with
  | none => simp only [getLength, Objects.bytes, hk, Option.map_none, Option.bind_none]
  | some os =>
    obtain ⟨content, hold⟩ := ho.holds k os hk
    rw [bytes_of_holds hk hold, getLength, hk, Option.map_some, Option.map_some, hold.len_eq]

/-- Whatever is done later, an object is as it was if none of the actions changes it. -/
def Separate (t : Objects) : Prop :=
  ∀ k as t' es, exec step t as = some (t', es) → (∀ action ∈ as, ¬action.Touches k) →
    t'.object k = t.object k

/-- **A run.** No object is changed by what is done to others. -/
theorem Owned.separate (ho : t.Owned) : t.Separate := by
  intro k as t' es hexec hothers
  have hkeep : ∀ s action s' es, s.Owned ∧ s.object k = t.object k →
      ¬ObjectAction.Touches action k → step s action = some (s', es) →
      s'.Owned ∧ s'.object k = t.object k := by
    intro s action s' es hs hother hstep
    obtain ⟨hnext, hsame⟩ := step_spec hs.1 hstep
    exact ⟨hnext, (hsame k hother).trans hs.2⟩
  exact (exec_invariant (C := fun _ action => ¬ObjectAction.Touches action k) hkeep ⟨ho, rfl⟩
    (along_of_mem (D := fun action => ¬ObjectAction.Touches action k) hothers) hexec).2

/-! ### Copies -/

/-- The writer `i` is a copy of `j`: it has the length and the content of `j`, which is as it was,
and what is done to one of the two later does not change the other one. -/
structure Copied (t : Objects) (i j : ℕ) (t' : Objects) : Prop where
  /-- The lengths of both are the same. -/
  length : t'.getLength i = t'.getLength j
  /-- The contents of both are the same. -/
  bytes : t'.bytes i = t'.bytes j
  /-- The source is as it was before. -/
  source : t'.object j = t.object j
  /-- Whatever is done to other objects later, an object stays as it is. -/
  separate : t'.Separate

/-- An action makes the writer `i` a copy of `j`. -/
def Copies (t : Objects) (action : ObjectAction) (i j : ℕ) : Prop :=
  ∃ t', step t action = some (t', []) ∧ t.Copied i j t'

/-- An action makes the packet `i` a copy of `j`, its stream included. -/
def CopiesPacket (t : Objects) (action : ObjectAction) (i j : ℕ) : Prop :=
  ∃ t', step t action = some (t', []) ∧ t.Copied i j t' ∧ t'.packets i = t'.packets j

/-- When the cut to the length of `b` leaves `b` of both contents: for instance, where one of the
two is empty. A writer that is assigned to itself must be empty. -/
def CutLeaves (i j : ℕ) (a b : Bytes) : Prop := if i = j then a = [] else b <+: a ++ b

instance (i j : ℕ) (a b : Bytes) : Decidable (CutLeaves i j a b) :=
  inferInstanceAs (Decidable (if i = j then a = [] else b <+: a ++ b))

/-- A changed writer is a copy exactly when it has the content of the source. -/
theorem Changes.copied_iff {content : Option Bytes} (h : Changes t i content t')
    (hself : i = j → t'.packets i = t.packets i) (hj : t.bytes j = some b) :
    t.Copied i j t' ↔ content = some b := by
  have hi' : t'.bytes i = content := by rw [h.bytes, Function.update_self]
  constructor
  · intro hcopied
    have hsource : t'.bytes j = t.bytes j := congrArg Prod.fst hcopied.source
    rw [← hi', hcopied.bytes, hsource, hj]
  · intro hcontent
    have hsource : t'.object j = t.object j := by
      by_cases hij : i = j
      · subst j
        rw [object, object, hself rfl, hi', hcontent, hj]
      · exact h.keeps.2 j (Ne.symm hij)
    have hbytes : t'.bytes i = t'.bytes j := by
      rw [hi', hcontent]
      exact (hj.symm.trans (congrArg Prod.fst hsource).symm)
    refine ⟨?_, hbytes, hsource, h.owned.separate⟩
    rw [h.owned.getLength_eq, h.owned.getLength_eq, hbytes]

/-- What an assignment leaves in the target, and when that is the content of the source. -/
theorem assign_cases (ho : t.Owned) (hi : t.bytes i = some a) (hj : t.bytes j = some b) :
    (¬CutLeaves i j a b ∧ t.assign i j = none) ∨
      ∃ t' content, t.assign i j = some t' ∧ t'.packets = t.packets ∧
        Changes t i (some content) t' ∧ (content = b ↔ CutLeaves i j a b) := by
  by_cases hij : i = j
  · subst j
    obtain rfl := Option.some.inj (hi.symm.trans hj)
    rw [CutLeaves, if_pos rfl]
    obtain hnone | ⟨t', hassign, hpackets, hchanges⟩ := assign_self_spec ho hi
    · exact .inl hnone
    · exact .inr ⟨t', _, hassign, hpackets, hchanges, List.append_right_eq_self⟩
  · rw [CutLeaves, if_neg hij]
    obtain ⟨t', hassign, hpackets, hchanges⟩ := assign_spec ho hij hi hj
    refine .inr ⟨t', _, hassign, hpackets, hchanges, ?_⟩
    rw [List.prefix_iff_eq_take, eq_comm]

/-- An action has one result, so a property of some result is one of that result. -/
theorem exists_step_iff {Q : Objects → Prop} (h : t.step action = some (t', es)) :
    (∃ u, t.step action = some (u, es) ∧ Q u) ↔ Q t' := by
  constructor
  · rintro ⟨u, hu, hQ⟩
    obtain ⟨rfl, -⟩ := Prod.mk.inj (Option.some.inj (h.symm.trans hu))
    exact hQ
  · exact fun hQ => ⟨t', h, hQ⟩

/-- An assignment makes a copy exactly when the cut to the source's length leaves the source's
content. -/
theorem copies_assign_iff (ho : t.Owned) (hi : t.bytes i = some a) (hj : t.bytes j = some b) :
    t.Copies (.assign i j) i j ↔ CutLeaves i j a b := by
  obtain ⟨hcut, hnone⟩ | ⟨t', content, hassign, hpackets, hchanges, hcut⟩ := assign_cases ho hi hj
  · refine iff_of_false ?_ hcut
    rintro ⟨t', hstep, -⟩
    rw [step, hnone] at hstep
    cases hstep
  · have hstep : step t (.assign i j) = some (t', []) := by rw [step, hassign, Option.map_some]
    rw [Copies, exists_step_iff hstep, hchanges.copied_iff (fun _ => by rw [hpackets]) hj,
      Option.some.injEq, hcut]

/-- The result of an assignment to a packet, when there is one. -/
theorem assignPacket_eq {p tup : UniMembers} (hp : t.packets i = some p)
    (htup : t.packets j = some tup) :
    t.assignPacket i j = (t.assign i j).map fun t' =>
      { t' with packets := Function.update t'.packets i (some tup) } := by
  simp only [assignPacket, hp, htup, bind, Option.bind_some, Option.map_eq_bind]
  rfl

/-- When the assignment of a packet copies: exactly when the cut of the target's own bytes leaves
those of the source. -/
theorem copiesPacket_assign_iff (ho : t.Owned) (hi : t.bytes i = some a) (hj : t.bytes j = some b)
    {p tup : UniMembers} (hp : t.packets i = some p) (htup : t.packets j = some tup) :
    t.CopiesPacket (.assignPacket i j) i j ↔ CutLeaves i j a b := by
  obtain ⟨hcut, hnone⟩ | ⟨t', content, hassign, hpackets, hchanges, hcut⟩ := assign_cases ho hi hj
  · refine iff_of_false ?_ hcut
    rintro ⟨t', hstep, -⟩
    rw [step, assignPacket_eq hp htup, hnone] at hstep
    cases hstep
  · have hstep : step t (.assignPacket i j) =
        some ({ t' with packets := Function.update t'.packets i (some tup) }, []) := by
      rw [step, assignPacket_eq hp htup, hassign, Option.map_some, Option.map_some]
    have hi' : Function.update t'.packets i (some tup) i = some tup := Function.update_self ..
    have hj' : Function.update t'.packets i (some tup) j = some tup := by
      by_cases hji : j = i
      · rw [hji, hi']
      · rw [Function.update_of_ne hji, hpackets, htup]
    have hself : i = j → Function.update t'.packets i (some tup) i = t.packets i := by
      rintro rfl
      rw [hi', htup]
    rw [CopiesPacket, exists_step_iff hstep, (hchanges.setPacket _).copied_iff hself hj,
      Option.some.injEq, hcut]
    exact and_iff_left (hi'.trans hj'.symm)

/-- A new writer can be copied from any writer. -/
theorem copies_copyConstruct (ho : t.Owned) (hi : t.writers i = none) (hj : t.bytes j = some b) :
    t.Copies (.copyConstruct i j) i j := by
  obtain ⟨t', hcopy, hchanges⟩ := copyConstruct_spec ho hi hj
  have hij : i ≠ j := by
    rintro rfl
    rw [Objects.bytes, hi] at hj
    cases hj
  refine ⟨t', by rw [step, hcopy, Option.map_some], ?_⟩
  exact (hchanges.copied_iff (fun heq => absurd heq hij) hj).mpr rfl

/-- A new packet can be copied from any packet: its stream is empty when it is assigned to. -/
theorem copiesPacket_copyPacket (ho : t.Owned) (hi : t.writers i = none) (hj : t.bytes j = some b)
    {tup : UniMembers} (htup : t.packets j = some tup) :
    t.CopiesPacket (.copyPacket i j) i j := by
  have hij : i ≠ j := by
    rintro rfl
    rw [Objects.bytes, hi] at hj
    cases hj
  obtain ⟨fresh, hfresh⟩ : ∃ fresh, t.construct i = some fresh := by
    rw [construct, if_pos (by simp [hi])]
    exact ⟨_, rfl⟩
  set first : Objects :=
    { fresh with packets := Function.update fresh.packets i (some .init) } with hfirst
  have hchanges : Changes t i (some []) first := (construct_spec ho hfresh).setPacket _
  have hobject : first.object j = t.object j := hchanges.keeps.2 j hij.symm
  have hbytes : first.bytes i = some [] := by rw [hchanges.bytes, Function.update_self]
  have hinit : first.packets i = some .init := Function.update_self ..
  have hassign : first.CopiesPacket (.assignPacket i j) i j := by
    rw [copiesPacket_assign_iff hchanges.owned hbytes ((congrArg Prod.fst hobject).trans hj) hinit
      ((congrArg Prod.snd hobject).trans htup), CutLeaves, if_neg hij]
    exact List.prefix_rfl
  obtain ⟨t', hstep, hcopied, hpackets⟩ := hassign
  refine ⟨t', ?_, ⟨hcopied.length, hcopied.bytes, hcopied.source.trans hobject, hcopied.separate⟩,
    hpackets⟩
  rw [← hstep, step, step, copyPacket, htup, constructPacket, hfresh]
  rfl

/-- **Copies.** In every state that a program can reach, the copy constructors of writers and of
packets copy the source, and an assignment does exactly where the cut to the length of the source
leaves its content of both contents. -/
theorem assignment_copies_iff (h : Reachable step {} t) (hi : t.bytes i = some a)
    (hj : t.bytes j = some b) :
    (t.Copies (.assign i j) i j ↔ CutLeaves i j a b) ∧
      (∀ p tup, t.packets i = some p → t.packets j = some tup →
        (t.CopiesPacket (.assignPacket i j) i j ↔ CutLeaves i j a b)) ∧
      ∀ k, t.writers k = none → t.Copies (.copyConstruct k j) k j ∧
        ∀ tup, t.packets j = some tup → t.CopiesPacket (.copyPacket k j) k j := by
  have ho := Owned.of_reachable h
  refine ⟨copies_assign_iff ho hi hj, fun p tup hp htup => copiesPacket_assign_iff ho hi hj hp htup,
    fun k hk => ⟨copies_copyConstruct ho hk hj, fun tup htup => ?_⟩⟩
  exact copiesPacket_copyPacket ho hk hj htup

end Runs

/-! ### Two packets -/

/-- Two packets, of which the first has been encoded into before. -/
private def samplePackets : List ObjectAction :=
  [.constructPacket 0, .constructPacket 1, .write 0 [1, 2], .write 1 [3]]

/-- The state of the two packets after the sample actions. -/
private def sampleState : Objects := ((exec step {} samplePackets).map Prod.fst).getD {}

/-- The theorem at two packets, and at a copy of the second one. -/
theorem assignment_copies_iff_sample :
    Reachable step {} sampleState ∧ ¬sampleState.Copies (.assign 0 1) 0 1 ∧
      sampleState.CopiesPacket (.copyPacket 2 1) 2 1 := by
  have h : Reachable step {} sampleState := ⟨samplePackets, [], rfl⟩
  have hall := assignment_copies_iff (i := 0) (j := 1) h (a := [1, 2]) (b := [3]) rfl rfl
  refine ⟨h, fun hcopies => ?_, ((hall.2.2 2 rfl).2 .init rfl)⟩
  exact absurd (hall.1.mp hcopies) (by decide)

/-- The stream of the first packet is `1` after the assignment, not `3`. -/
theorem assignment_copies_iff_fails :
    ∃ t t', Reachable step {} t ∧ t.bytes 0 = some [1, 2] ∧ t.bytes 1 = some [3] ∧
      step t (.assignPacket 0 1) = some (t', []) ∧ t'.bytes 0 = some [1] ∧
      t'.bytes 0 ≠ t.bytes 1 :=
  ⟨sampleState, _, ⟨samplePackets, [], rfl⟩, rfl, rfl, rfl, rfl, by decide⟩

end Objects

end Tars
