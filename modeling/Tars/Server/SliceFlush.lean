import Tars.Server.Sending

/-!
# Flushing slices with the source's counters

`send` of slices counts vectors and bytes in `size_t` and `int` and asserts on the way. Up to a
total of `2 ^ 31` bytes the counters agree with the slices, no assertion fails, and the two loops
of `send` and `adjustSlices` split the slices at the same byte. So successive `EPOLLOUT` events
transmit every byte once and in order. How many bytes an event transmits is what the kernel
accepts in its calls of `::writev`; `writevCounts` says this without the counters of `send`.
-/

namespace Tars

namespace Sender

/-- The loop of `send` of slices from its counters `alreadySentVecs` and `alreadySentBytes`: the
bytes that the kernel took and the `int` returned. It fails where an assertion does. -/
def sendCounted (kIOVecCount : ℕ) (slices : List Bytes) :
    List WriteResult → ℕ → ℕ → Option (Bytes × ℤ)
  | [], _, alreadySentBytes => some ([], toInt32 alreadySentBytes)
  | answer :: answers, alreadySentVecs, alreadySentBytes =>
    if alreadySentVecs < slices.length then
      let vc := (min (toInt32 (slices.length - alreadySentVecs)) kIOVecCount).toNat
      let vecs := (slices.drop alreadySentVecs).take vc
      if [] ∈ vecs ∨ kIOVecCount < vecs.length then none
      else
        let expectSent := vecs.flatten.length
        let sent := tcpWriteV vecs answer
        match sent.bytes with
        | none => some (sent.took, -1)
        | some bytes =>
          if toInt32 bytes = 0 then some (sent.took, toInt32 alreadySentBytes)
          else if toInt32 bytes = toInt32 expectSent then
            (sendCounted kIOVecCount slices answers (alreadySentVecs + vc)
              (alreadySentBytes + bytes)).map fun r => (sent.took ++ r.1, r.2)
          else if 0 < toInt32 bytes then some (sent.took, toInt32 (alreadySentBytes + bytes))
          else none
    else some ([], toInt32 alreadySentBytes)

/-- `send` of slices, with as many of them in one call of `::writev` as the system allows. -/
def sendVector (scIovMax : ℕ) (answers : List WriteResult) (slices : List Bytes) :
    Option (Bytes × ℤ) :=
  sendCounted (max scIovMax 16) slices answers 0 0

/-- `EPOLLOUT` on a connection with these slices, unless there is a fatal error: the slices that are
left and the bytes that the kernel took. -/
def flushSlices (scIovMax : ℕ) (slices : List Bytes) (answers : List WriteResult) :
    Option (List Bytes × List Bytes) :=
  match sendVector scIovMax answers slices with
  | none => none
  | some (took, bytes) =>
    if bytes = -1 then none else some (adjustSlices slices bytes.toNat, [took])

/-- The answers of `::writev` without a fatal error, which would end the loop with slices left. -/
def NotFatal (answers : List WriteResult) : Prop := .interrupted ∉ answers ∧ .error ∉ answers

instance (answers : List WriteResult) : Decidable (NotFatal answers) :=
  inferInstanceAs (Decidable (_ ∧ _))

/-- What a call of `::writev` with so many bytes accepts of them under this answer. -/
def acceptedOf (offered : ℕ) : WriteResult → ℕ
  | .accepted n => min (min n maxWrite) offered
  | .again | .interrupted | .error => 0

/-- The counts of the calls of `::writev` that flush these slices, each offering the next `limit`
of them. There is another call as long as the last one accepted all that it was offered; behind the
last answer the kernel accepts nothing. -/
def writevCounts (limit : ℕ) : List WriteResult → List Bytes → List ℕ
  | [], _ => []
  | answer :: answers, slices =>
    let offered := (slices.take limit).flatten.length
    if slices = [] then []
    else if acceptedOf offered answer = offered then
      offered :: writevCounts limit answers (slices.drop limit)
    else [acceptedOf offered answer]

/-- An event hands over exactly the bytes that the kernel accepts in its calls of `::writev`. -/
def HandsOver (scIovMax : ℕ) (slices : List Bytes) (_ : List Bytes) (answers : List WriteResult)
    (out : List Bytes) : Prop :=
  ∃ took : Bytes, out = [took] ∧
    took.length = (writevCounts (max scIovMax 16) answers slices).sum

section Counting

variable {scIovMax : ℕ} {slices : List Bytes} {answers : List WriteResult}

/-- There are at most as many slices as bytes in them. -/
theorem length_le_flatten (hslices : ∀ slice ∈ slices, slice ≠ []) :
    slices.length ≤ slices.flatten.length := by
  induction slices with
  | nil => exact le_rfl
  | cons slice slices ih =>
    obtain ⟨hfirst, hrest⟩ := List.forall_mem_cons.mp hslices
    have hpos := List.length_pos_iff.mpr hfirst
    have hle := ih hrest
    rw [List.length_cons, List.flatten_cons, List.length_append]
    omega

/-- The `int` minimum is the number of vectors that are taken. -/
private theorem take_vc (slices : List Bytes) (limit : ℕ) (hlen : slices.length < 2 ^ 31) :
    slices.take (min (toInt32 slices.length) limit).toNat = slices.take limit ∧
      slices.drop (min (toInt32 slices.length) limit).toNat = slices.drop limit := by
  rw [toInt32_of_lt hlen]
  rcases Nat.lt_or_ge slices.length limit with hlt | hge
  · have hvc : (min (slices.length : ℤ) limit).toNat = slices.length := by omega
    rw [hvc, List.take_length, List.drop_length, List.take_of_length_le hlt.le,
      List.drop_eq_nil_of_le hlt.le]
    exact ⟨rfl, rfl⟩
  · have hvc : (min (slices.length : ℤ) limit).toNat = limit := by omega
    rw [hvc]
    exact ⟨rfl, rfl⟩

/-- A total below `2 ^ 31` is counted exactly: from any counters that agree with what was sent the
loop does what `sendSlices` does with the slices that are left. -/
theorem sendCounted_eq (hslices : ∀ slice ∈ slices, slice ≠ []) {sentVecs sentBytes : ℕ}
    (htotal : sentBytes + (slices.drop sentVecs).flatten.length < 2 ^ 31) :
    sendCounted (max scIovMax 16) slices answers sentVecs sentBytes =
      some ((sendSlices scIovMax answers (slices.drop sentVecs)).took,
        match (sendSlices scIovMax answers (slices.drop sentVecs)).bytes with
        | none => -1
        | some bytes => ((sentBytes + bytes : ℕ) : ℤ)) := by
  induction answers generalizing sentVecs sentBytes with
  | nil =>
    rw [sendCounted, toInt32_of_lt (by omega)]
    cases slices.drop sentVecs <;> rfl
  | cons answer answers ih =>
    by_cases hmore : sentVecs < slices.length
    · have hne : slices.drop sentVecs ≠ [] := by
        rw [ne_eq, List.drop_eq_nil_iff]
        omega
      have hleft : ∀ slice ∈ slices.drop sentVecs, slice ≠ [] :=
        fun slice hmem => hslices slice (List.mem_of_mem_drop hmem)
      have hcount := length_le_flatten hleft
      obtain ⟨htake, hdrop⟩ := take_vc (slices.drop sentVecs) (max scIovMax 16) (by omega)
      rw [List.length_drop] at htake hdrop
      have hassert : ¬([] ∈ (slices.drop sentVecs).take (max scIovMax 16) ∨
          max scIovMax 16 < ((slices.drop sentVecs).take (max scIovMax 16)).length) := by
        rw [not_or, List.length_take]
        exact ⟨fun hmem => hleft [] (List.mem_of_mem_take hmem) rfl, by omega⟩
      have hall : (slices.drop sentVecs).flatten.length =
          ((slices.drop sentVecs).take (max scIovMax 16)).flatten.length +
            ((slices.drop sentVecs).drop (max scIovMax 16)).flatten.length := by
        rw [← List.length_append, ← List.flatten_append, List.take_append_drop]
      rw [sendCounted, if_pos hmore, sendSlices_cons answer answers hne]
      simp only [htake, if_neg hassert]
      cases hbytes : (tcpWriteV ((slices.drop sentVecs).take (max scIovMax 16)) answer).bytes with
      | none => simp [hbytes]
      | some bytes =>
        obtain ⟨-, hle⟩ := tcpWriteV_took hbytes
        simp only [toInt32_of_lt (show bytes < 2 ^ 31 by omega), reduceCtorEq, false_or,
          Option.some.injEq, Nat.cast_eq_zero, toInt32_of_lt (show
            ((slices.drop sentVecs).take (max scIovMax 16)).flatten.length < 2 ^ 31 by omega),
          Nat.cast_inj]
        by_cases hagain : bytes = 0
        · rw [if_pos hagain, if_pos hagain, hbytes, hagain, toInt32_of_lt (by omega)]
          rfl
        rw [if_neg hagain, if_neg hagain]
        by_cases hwhole : bytes = ((slices.drop sentVecs).take (max scIovMax 16)).flatten.length
        · rw [if_pos hwhole, if_pos hwhole]
          rw [List.drop_drop] at hdrop
          have hrest := @ih (sentVecs +
            (min (toInt32 (slices.length - sentVecs)) (max scIovMax 16 : ℕ)).toNat)
            (sentBytes + bytes) (by rw [hdrop]; omega)
          rw [hrest, hdrop, Option.map_some, ← hwhole]
          cases (sendSlices scIovMax answers ((slices.drop sentVecs).drop
            (max scIovMax 16))).bytes with
          | none => rfl
          | some more => simp only [Option.map_some, Nat.add_assoc]
        · rw [if_neg hwhole, if_neg hwhole, if_pos (by omega), hbytes,
            toInt32_of_lt (by omega)]
    · have hnil : slices.drop sentVecs = [] := List.drop_eq_nil_of_le (by omega)
      rw [sendCounted, if_neg hmore, hnil, toInt32_of_lt (by omega)]
      rfl

/-- `::writev` returns what it accepts, unless the answer is fatal. -/
theorem tcpWriteV_bytes {answer : WriteResult} (h : NotFatal (answer :: answers)) :
    (tcpWriteV slices answer).bytes = some (acceptedOf slices.flatten.length answer) := by
  cases answer with
  | accepted n => rfl
  | again => rfl
  | interrupted => exact absurd List.mem_cons_self h.1
  | error => exact absurd List.mem_cons_self h.2

/-- Without a fatal answer `send` of slices returns the total of what its calls of `::writev`
accept. The induction is over the answers, of which every call takes one. -/
theorem sendSlices_bytes (hanswers : NotFatal answers) (hslices : ∀ slice ∈ slices, slice ≠ []) :
    (sendSlices scIovMax answers slices).bytes =
      some (writevCounts (max scIovMax 16) answers slices).sum := by
  induction answers generalizing slices with
  | nil => cases slices <;> rfl
  | cons answer answers ih =>
    by_cases hne : slices = []
    · subst hne
      rfl
    have hrest : NotFatal answers :=
      ⟨fun hmem => hanswers.1 (List.mem_cons_of_mem _ hmem),
        fun hmem => hanswers.2 (List.mem_cons_of_mem _ hmem)⟩
    -- The first slice is offered, so that all of a batch is never nothing.
    have hoffered : (slices.take (max scIovMax 16)).flatten.length ≠ 0 := by
      cases slices with
      | nil => exact absurd rfl hne
      | cons slice slices =>
        have hpos := List.length_pos_iff.mpr (hslices slice List.mem_cons_self)
        rw [List.take_cons (by omega), List.flatten_cons, List.length_append]
        omega
    have hfirst := @tcpWriteV_bytes (slices.take (max scIovMax 16)) answers answer hanswers
    rw [sendSlices_cons answer answers hne, writevCounts]
    simp only [if_neg hne, hfirst, reduceCtorEq, false_or, Option.some.injEq]
    by_cases hwhole : acceptedOf (slices.take (max scIovMax 16)).flatten.length answer =
        (slices.take (max scIovMax 16)).flatten.length
    · rw [if_neg (by omega), if_pos hwhole, if_pos hwhole, ih hrest
        (fun slice hmem => hslices slice (List.mem_of_mem_drop hmem)), Option.map_some,
        List.sum_cons]
    · rw [if_neg hwhole, if_neg hwhole, List.sum_singleton, ite_self, hfirst]

/-- Skipping bytes leaves no empty slice, so every call of `::writev` has something to send. -/
theorem ne_nil_of_mem_adjustSlices (hslices : ∀ slice ∈ slices, slice ≠ []) (n : ℕ) :
    ∀ slice ∈ adjustSlices slices n, slice ≠ [] := by
  induction slices generalizing n with
  | nil => exact nofun
  | cons first slices ih =>
    obtain ⟨hfirst, hrest⟩ := List.forall_mem_cons.mp hslices
    rw [adjustSlices]
    split
    · exact ih hrest _
    · rename_i hlt
      rw [List.forall_mem_cons]
      refine ⟨?_, hrest⟩
      rw [ne_eq, List.drop_eq_nil_iff]
      exact hlt

/-- `clearSlices` leaves nothing of slices whose total is a `size_t`. -/
theorem clearSlices_eq_nil (hslices : ∀ slice ∈ slices, slice ≠ [])
    (htotal : slices.flatten.length < 2 ^ 64) : clearSlices slices = [] := by
  have hnone : (clearSlices slices).flatten = [] := by
    rw [clearSlices, flatten_adjustSlices, List.drop_eq_nil_iff]
    omega
  refine List.eq_nil_iff_forall_not_mem.mpr fun slice hmem => ?_
  exact ne_nil_of_mem_adjustSlices hslices _ slice hmem
    (List.flatten_eq_nil_iff.mp hnone slice hmem)

/-- **One `send` of slices.** Without a fatal answer it returns the total of what its calls of
`::writev` accept, and the kernel took so many bytes from the front of the slices. -/
theorem sendVector_spec (hslices : ∀ slice ∈ slices, slice ≠ [])
    (htotal : slices.flatten.length < 2 ^ 31) (hanswers : NotFatal answers) {n : ℕ}
    (hn : n = (writevCounts (max scIovMax 16) answers slices).sum) :
    sendVector scIovMax answers slices = some (slices.flatten.take n, (n : ℤ)) ∧
      n ≤ slices.flatten.length := by
  have hcounted := @sendCounted_eq scIovMax slices answers hslices 0 0 (by
    rw [List.drop_zero]
    omega)
  rw [List.drop_zero] at hcounted
  have hbytes := @sendSlices_bytes scIovMax slices answers hanswers hslices
  rw [← hn] at hbytes
  obtain ⟨htook, hle⟩ := sendSlices_took answers hbytes
  refine ⟨?_, hle⟩
  rw [sendVector, hcounted, hbytes, htook]
  simp

/-- One `EPOLLOUT` moves the front of the slices to the kernel, as much as its calls of `::writev`
accept. -/
theorem flushSlices_spec (hslices : ∀ slice ∈ slices, slice ≠ [])
    (htotal : slices.flatten.length < 2 ^ 31) (hanswers : NotFatal answers) :
    ∃ left took, flushSlices scIovMax slices answers = some (left, [took]) ∧
      took.length = (writevCounts (max scIovMax 16) answers slices).sum ∧
      took ++ left.flatten = slices.flatten ∧ ∀ slice ∈ left, slice ≠ [] := by
  obtain ⟨hsend, hle⟩ := @sendVector_spec scIovMax slices answers hslices htotal hanswers _ rfl
  generalize (writevCounts (max scIovMax 16) answers slices).sum = n at hsend hle
  refine ⟨adjustSlices slices n, slices.flatten.take n, ?_, ?_, ?_,
    ne_nil_of_mem_adjustSlices hslices n⟩
  · simp only [flushSlices, hsend, if_neg (show ¬((n : ℤ) = -1) by omega), Int.toNat_natCast]
  · rw [List.length_take, Nat.min_eq_left hle]
  · rw [flatten_adjustSlices, List.take_append_drop]

/-- The slices that an event leaves are fit for the next one. -/
theorem length_left {left : List Bytes} {took : Bytes}
    (hboth : took ++ left.flatten = slices.flatten) (htotal : slices.flatten.length < 2 ^ 31) :
    left.flatten.length < 2 ^ 31 := by
  have hlen := congrArg List.length hboth
  rw [List.length_append] at hlen
  omega

/-- Successive `EPOLLOUT` events move the slices to the kernel from the front. -/
theorem exec_flushSlices (hslices : ∀ slice ∈ slices, slice ≠ [])
    (htotal : slices.flatten.length < 2 ^ 31) {script : List (List WriteResult)}
    (hscript : ∀ answers ∈ script, NotFatal answers) :
    ∃ left took, Scripts.exec (flushSlices scIovMax) slices script = some (left, took) ∧
      took.flatten ++ left.flatten = slices.flatten ∧ ∀ slice ∈ left, slice ≠ [] := by
  induction script generalizing slices with
  | nil => exact ⟨slices, [], rfl, rfl, hslices⟩
  | cons answers script ih =>
    obtain ⟨hfirst, hrest⟩ := List.forall_mem_cons.mp hscript
    obtain ⟨middle, took, hflush, -, hboth, hmiddle⟩ :=
      @flushSlices_spec scIovMax slices answers hslices htotal hfirst
    obtain ⟨left, more, hexec, hall, hleft⟩ := ih hmiddle (length_left hboth htotal) hrest
    refine ⟨left, [took] ++ more,
      Scripts.exec_cons_eq_some.mpr ⟨middle, _, _, hflush, hexec, rfl⟩, ?_, hleft⟩
    rw [List.flatten_append, List.flatten_singleton, List.append_assoc, hall, hboth]

/-- Every one of successive `EPOLLOUT` events hands over what its calls of `::writev` accept. -/
theorem each_handsOver (hslices : ∀ slice ∈ slices, slice ≠ [])
    (htotal : slices.flatten.length < 2 ^ 31) {script : List (List WriteResult)}
    (hscript : ∀ answers ∈ script, NotFatal answers) :
    Scripts.Each (flushSlices scIovMax) (HandsOver scIovMax) slices [] script := by
  refine Scripts.each_of_along (C := fun _ answers => NotFatal answers)
    (I := fun slices _ => (∀ slice ∈ slices, slice ≠ []) ∧ slices.flatten.length < 2 ^ 31)
    (fun slices answers left out past hI hanswers hflush => ?_) ⟨hslices, htotal⟩
    (Scripts.along_of_mem hscript)
  obtain ⟨middle, took, hflush', hcount, hboth, hmiddle⟩ :=
    @flushSlices_spec scIovMax slices answers hI.1 hI.2 hanswers
  obtain ⟨rfl, rfl⟩ := Prod.mk.inj (Option.some.inj (hflush'.symm.trans hflush))
  exact ⟨⟨took, rfl, hcount⟩, hmiddle, length_left hboth hI.2⟩

end Counting

/-- **Flushing slices.** For slices that are not empty, with a total below `2 ^ 31`, every limit
and all answers without a fatal error: `send` returns the total `n` of what its calls of `::writev`
accept, the kernel took the first `n` bytes of the slices, `adjustSlices` leaves exactly the rest
without an empty slice, and `clearSlices` leaves nothing. Successive `EPOLLOUT` events transmit
from the front what they do not leave, and each of them as much as the kernel accepts. -/
theorem slices_flushed {slices : List Bytes} (hslices : ∀ slice ∈ slices, slice ≠ [])
    (htotal : slices.flatten.length < 2 ^ 31) (scIovMax : ℕ) :
    (∀ answers, NotFatal answers → ∀ n : ℕ,
        n = (writevCounts (max scIovMax 16) answers slices).sum →
          sendVector scIovMax answers slices = some (slices.flatten.take n, (n : ℤ)) ∧
          n ≤ slices.flatten.length ∧
          (adjustSlices slices n).flatten = slices.flatten.drop n ∧
          ∀ slice ∈ adjustSlices slices n, slice ≠ []) ∧
      clearSlices slices = [] ∧
      ∀ script : List (List WriteResult), (∀ answers ∈ script, NotFatal answers) →
        Scripts.Each (flushSlices scIovMax) (HandsOver scIovMax) slices [] script ∧
        ∃ left took, Scripts.exec (flushSlices scIovMax) slices script = some (left, took) ∧
          took.flatten ++ left.flatten = slices.flatten ∧ ∀ slice ∈ left, slice ≠ [] := by
  refine ⟨fun answers hanswers n hn => ?_, clearSlices_eq_nil hslices (by omega),
    fun script hscript => ⟨each_handsOver hslices htotal hscript,
      exec_flushSlices hslices htotal hscript⟩⟩
  obtain ⟨hsend, hle⟩ := sendVector_spec hslices htotal hanswers hn
  exact ⟨hsend, hle, flatten_adjustSlices slices n, ne_nil_of_mem_adjustSlices hslices n⟩

/-- `slices_flushed` for seventeen slices of two bytes under a limit of sixteen: the first call
takes the first sixteen, the second one byte of the last. Then two events for three other slices,
of which the first takes four bytes, and the second the other two. -/
theorem slices_flushed_sample :
    sendVector 16 [.accepted 40, .accepted 1] (List.replicate 17 [7, 8]) =
        some ((List.replicate 17 [7, 8]).flatten.take 33, 33) ∧
      (adjustSlices (List.replicate 17 [7, 8]) 33).flatten =
        (List.replicate 17 [7, 8]).flatten.drop 33 ∧
      ∃ left took, Scripts.exec (flushSlices 1024) [[1, 2], [3, 4, 5], [6]]
          [[.accepted 4], [.accepted 7, .again]] = some (left, took) ∧
        HandsOver 1024 [[1, 2], [3, 4, 5], [6]] [] [.accepted 4] (took.take 1) ∧
        took.flatten ++ left.flatten = [1, 2, 3, 4, 5, 6] := by
  obtain ⟨hsend, -, -⟩ := @slices_flushed (List.replicate 17 [7, 8]) (by decide) (by decide) 16
  obtain ⟨-, -, hrun⟩ := @slices_flushed [[1, 2], [3, 4, 5], [6]] (by decide) (by decide) 1024
  obtain ⟨hvector, -, hrest, -⟩ := hsend [.accepted 40, .accepted 1] (by decide) 33 (by decide)
  obtain ⟨heach, left, took, hexec, hall, -⟩ :=
    hrun [[.accepted 4], [.accepted 7, .again]] (by decide)
  obtain ⟨middle, first, rest, hflush, hlast, rfl⟩ := Scripts.exec_cons_eq_some.mp hexec
  obtain ⟨hfirst, -⟩ := heach middle first hflush
  obtain ⟨took, rfl, hcount⟩ := hfirst
  exact ⟨hvector, hrest, left, [took] ++ rest, hexec, ⟨took, rfl, hcount⟩, hall⟩

end Sender

end Tars
