import Ccybe.Http.Provenance

/-!
# What `read_from_client` receives

The bytes that `recv` returns go through a buffer with a zero byte behind them and are appended as a
string, so that each chunk is cut off at its first zero byte.
-/

namespace Ccybe

open CSem Trace

/-- Nothing is cut off if and only if there is no zero byte. -/
lemma textOf_eq_flatten_iff (chunks : List Bytes) :
    textOf chunks = chunks.flatten ↔ (0 : UInt8) ∉ chunks.flatten := by
  refine ⟨fun heq => ?_, textOf_eq_flatten⟩
  rw [← heq]
  intro hmem
  obtain ⟨chunk, -, hzero⟩ := List.mem_flatMap.mp hmem
  exact zero_notMem_cstr chunk hzero

namespace Server

variable {n : ℕ} {W : Type}

/-- The loop is before `read_from_client` for a client with an open descriptor. -/
def BeforeRead (app : App W) (s : Server n W) : Prop :=
  s.fault = none ∧ ∃ ident a es node, s.loop = .events (.read ident (some a) false :: es) ∧
    ident ≠ app.lnFd ∧ s.conns.clients.find a = some node ∧ (s.conns.fds node.client.fd).isSome

/-- `read_from_client` up to `push_task`, when `recv` returns the chunks and then `EAGAIN`, and there
is memory. -/
def receive (chunks : List Bytes) : List (Label n W) :=
  .loop (.next true) :: (chunks.map fun chunk => .loop (.recv (.data chunk true))) ++
    [.loop (.recv .again), .loop (.build true true true true)]

/-- `read_from_client` hands the bytes and their number to `handle_conn`. -/
def HandsOver (app : App W) (s : Server n W) (chunks : List Bytes) (bytes : Bytes) : Prop :=
  ∃ t es addr node, run (step app) s (receive chunks) = some t ∧ t.fault = none ∧
    t.loop = .handing es addr ∧ t.tnodes addr = some node ∧ node.buffer.len = bytes.length ∧
    node.buffer.bytes = .ok bytes

lemma step_fail (app : App W) (s : Server n W) (f : Fault) (l : Label n W) :
    step app (s.fail f) l = none := by
  simp [step, fail]

/-- `new_string` is called, and the first `recv` is next. -/
lemma step_beforeRead {app : App W} {s : Server n W} (h : s.BeforeRead app) :
    ∃ es client buf, (s.conns.fds client.fd).isSome ∧ buf.Holds [] ∧
      step app s (.loop (.next true)) = some { s with loop := .reading es client buf [] } := by
  obtain ⟨hfault, ident, a, es, node, hloop, hne, hnode, hopen⟩ := h
  have hempty : HasString (terminated []) [] := hasString_terminated List.not_mem_nil
  obtain ⟨buf, hnew, hbuf⟩ := StringT.newString_eq hempty (by decide)
  refine ⟨es, node.client, buf, hopen, hbuf, ?_⟩
  simp [step, hfault, loopStep, hloop, nextEvent, hne, hnode, hnew]

section Reading

variable {app : App W} {s : Server n W} (hfault : s.fault = none) {es : List KEvent} {client : Client}
  (hopen : (s.conns.fds client.fd).isSome) {buf : StringT} {acc : Bytes} (hbuf : buf.Holds acc)
  (done : List Bytes)

include hfault hopen hbuf

/-- A chunk is appended as a string, unless the length is no longer an `int`. -/
lemma step_data {chunk : Bytes} (hchunk : 0 < chunk.length ∧ chunk.length ≤ 215) :
    (acc.length + (cstr chunk).length + 1 ≤ 2147483647 ∧
      ∃ buf', buf'.Holds (acc ++ cstr chunk) ∧
        step app { s with loop := .reading es client buf done } (.loop (.recv (.data chunk true))) =
          some { s with loop := .reading es client buf' (done ++ [chunk]) }) ∨
    (2147483647 < acc.length + (cstr chunk).length + 1 ∧
      step app { s with loop := .reading es client buf done } (.loop (.recv (.data chunk true))) =
        some (fail { s with loop := .reading es client buf done } (.undefined .overflow))) := by
  have hstring := hasString_terminated_cstr chunk
  rcases le_or_gt (acc.length + (cstr chunk).length + 1) 2147483647 with hle | hgt
  · obtain ⟨buf', happend, hbuf'⟩ := StringT.appendStringCstr_eq hbuf hstring hle
    refine .inl ⟨hle, buf', hbuf', ?_⟩
    simp [step, hfault, loopStep, recv, hopen, hchunk, happend]
  · have happend := StringT.appendStringCstr_overflow hbuf hstring hgt true
    refine .inr ⟨hgt, ?_⟩
    simp [step, hfault, loopStep, recv, hopen, hchunk, happend, fail]

/-- The buffer is copied into a task node. -/
lemma run_end (hint : acc.length + 1 ≤ 2147483647) :
    ∃ t addr node, run (step app) { s with loop := .reading es client buf done }
        [.loop (.recv .again), .loop (.build true true true true)] = some t ∧ t.fault = none ∧
      t.loop = .handing es addr ∧ t.tnodes addr = some node ∧ node.buffer.Holds acc := by
  obtain ⟨c, hc⟩ := Option.isSome_iff_exists.mp hopen
  obtain ⟨copy, hcopy, hcopied⟩ := hbuf.begins.copyString_eq hint
  refine ⟨{ s with
    tnodes := Function.update s.tnodes s.nextTnode (some ⟨client, copy, none, c, done⟩)
    nextTnode := s.nextTnode + 1
    loop := .handing es s.nextTnode
    history := { s.history with received := s.history.received ++ [(c, done)] } }, s.nextTnode,
    ⟨client, copy, none, c, done⟩, ?_, hfault, rfl, Function.update_self _ _ _, hcopied⟩
  simp [run, step, hfault, loopStep, recv, hc, build, hcopy, hcopied.data]

/-- The chunks are received one by one. -/
lemma run_chunks (hint : acc.length + 1 ≤ 2147483647) {chunks : List Bytes}
    (hchunks : ∀ chunk ∈ chunks, 0 < chunk.length ∧ chunk.length ≤ 215) {tail : List (Label n W)}
    (htail : tail ≠ []) :
    (acc.length + (textOf chunks).length + 1 ≤ 2147483647 ∧
      ∃ buf', buf'.Holds (acc ++ textOf chunks) ∧
        run (step app) { s with loop := .reading es client buf done }
            ((chunks.map fun chunk => .loop (.recv (.data chunk true))) ++ tail) =
          run (step app) { s with loop := .reading es client buf' (done ++ chunks) } tail) ∨
    (2147483647 < acc.length + (textOf chunks).length + 1 ∧
      run (step app) { s with loop := .reading es client buf done }
        ((chunks.map fun chunk => .loop (.recv (.data chunk true))) ++ tail) = none) := by
  induction chunks generalizing buf acc done with
  | nil => exact .inl ⟨by simpa [textOf] using hint, buf, by simpa [textOf] using hbuf, by simp⟩
  | cons chunk chunks ih =>
    rw [List.forall_mem_cons] at hchunks
    have htext : textOf (chunk :: chunks) = cstr chunk ++ textOf chunks := by
      rw [textOf, List.flatMap_cons]
      rfl
    rw [List.map_cons, List.cons_append, run, htext, List.length_append]
    rcases @step_data n W app s hfault es client hopen buf acc hbuf done chunk hchunks.1 with
      ⟨hle, buf', hbuf', hstep⟩ | ⟨hgt, hstep⟩
    · rw [hstep, Option.bind_some]
      have hrest := ih hbuf' (done ++ [chunk]) (by rw [List.length_append]; omega) hchunks.2
      rw [List.length_append, List.append_assoc, List.append_assoc, List.singleton_append] at hrest
      rw [← Nat.add_assoc]
      exact hrest
    · refine .inr ⟨by omega, ?_⟩
      obtain ⟨l, ls, hls⟩ := List.exists_cons_of_ne_nil (show (chunks.map fun chunk =>
        (Label.loop (.recv (.data chunk true)) : Label n W)) ++ tail ≠ [] by simp [htail])
      rw [hstep, Option.bind_some, hls, run, step_fail]
      rfl

end Reading

/-- What is handed over: the chunks up to their first zero bytes. -/
lemma run_receive {app : App W} {s : Server n W} (h : s.BeforeRead app) {chunks : List Bytes}
    (hchunks : ∀ chunk ∈ chunks, 0 < chunk.length ∧ chunk.length ≤ 215) :
    ((textOf chunks).length + 1 ≤ 2147483647 ∧ s.HandsOver app chunks (textOf chunks)) ∨
    (2147483647 < (textOf chunks).length + 1 ∧ run (step app) s (receive chunks) = none) := by
  obtain ⟨es, client, buf, hopen, hbuf, hstep⟩ := step_beforeRead h
  have hrun := @run_chunks n W app s h.1 es client hopen buf [] hbuf [] (by decide) chunks hchunks
    [.loop (.recv .again), .loop (.build true true true true)] (List.cons_ne_nil _ _)
  rw [List.length_nil, Nat.zero_add, List.nil_append] at hrun
  have hreceive : run (step app) s (receive chunks) = run (step app)
      { s with loop := .reading es client buf [] } ((chunks.map fun chunk =>
        .loop (.recv (.data chunk true))) ++
          [.loop (.recv .again), .loop (.build true true true true)]) := by
    rw [receive, List.cons_append, run, hstep, Option.bind_some]
  rw [hreceive]
  rcases hrun with ⟨hle, buf', hbuf', hrun⟩ | hnone
  · obtain ⟨t, addr, node, hend, hfault, hloop, hnode, hholds⟩ :=
      @run_end n W app s h.1 es client hopen buf' _ hbuf' chunks hle
    exact .inl ⟨hle, t, es, addr, node, (hreceive.trans hrun).trans hend, hfault, hloop, hnode,
      hholds.len, hholds.bytes_eq⟩
  · exact .inr hnone

lemma HandsOver.unique {app : App W} {s : Server n W} {chunks : List Bytes} {bs bs' : Bytes}
    (h : s.HandsOver app chunks bs) (h' : s.HandsOver app chunks bs') : bs = bs' := by
  obtain ⟨t, es, addr, node, hrun, -, hloop, hnode, -, hbytes⟩ := h
  obtain ⟨t', es', addr', node', hrun', -, hloop', hnode', -, hbytes'⟩ := h'
  obtain rfl : t = t' := Option.some.inj (hrun.symm.trans hrun')
  rw [hloop] at hloop'
  cases hloop'
  obtain rfl : node = node' := Option.some.inj (hnode.symm.trans hnode')
  exact Except.ok.inj (hbytes.symm.trans hbytes')

/-- What is received is handed over as it is if and only if it has no zero byte, and its length and a
zero byte behind it are an `int`. -/
theorem received_intact_iff {app : App W} {s : Server n W} (h : s.BeforeRead app) {chunks : List Bytes}
    (hchunks : ∀ chunk ∈ chunks, 0 < chunk.length ∧ chunk.length ≤ 215) :
    s.HandsOver app chunks chunks.flatten ↔
      (0 : UInt8) ∉ chunks.flatten ∧ chunks.flatten.length + 1 ≤ 2147483647 := by
  rw [← textOf_eq_flatten_iff]
  rcases run_receive h hchunks with ⟨hle, hhands⟩ | ⟨hgt, hnone⟩
  · constructor
    · intro hintact
      have heq := hhands.unique hintact
      exact ⟨heq, by rw [← heq]; exact hle⟩
    · rintro ⟨heq, -⟩
      rwa [heq] at hhands
  · refine iff_of_false ?_ ?_
    · rintro ⟨t', -, -, -, hrun', -⟩
      rw [hnone] at hrun'
      cases hrun'
    · rintro ⟨heq, hle⟩
      rw [heq] at hgt
      omega

/-- A READ event of the connection on descriptor 5 is next. -/
def readable : List (Label 1 Unit) :=
  Demo.start ++ Demo.poll [.read 3 none false] ++ Demo.accept 5 ++ Demo.next ++
    Demo.poll [.read 5 (some 0) false]

theorem received_intact_iff_two :
    ∃ s : Server 1 Unit, run (step Demo.app) (init 1 Unit) readable = some s ∧
      (s.HandsOver Demo.app [Demo.requestLine, [13, 10]] [Demo.requestLine, [13, 10]].flatten ↔
        (0 : UInt8) ∉ [Demo.requestLine, [13, 10]].flatten ∧
          [Demo.requestLine, [13, 10]].flatten.length + 1 ≤ 2147483647) :=
  ⟨_, rfl, received_intact_iff ⟨rfl, 5, 0, [], _, rfl, by decide, rfl, rfl⟩ (by decide)⟩

/-- Of the bytes `A`, zero and `B` only the first is handed over. -/
theorem byte_behind_zero_dropped :
    ∃ s : Server 1 Unit, run (step Demo.app) (init 1 Unit) readable = some s ∧
      s.HandsOver Demo.app [[65, 0, 66]] [65] ∧
      ¬ s.HandsOver Demo.app [[65, 0, 66]] [[65, 0, 66]].flatten := by
  obtain ⟨s, hrun, hread⟩ : ∃ s : Server 1 Unit,
      run (step Demo.app) (init 1 Unit) readable = some s ∧ s.BeforeRead Demo.app :=
    ⟨_, rfl, rfl, 5, 0, [], _, rfl, by decide, rfl, rfl⟩
  rcases @run_receive _ _ _ s hread [[65, 0, 66]] (by decide) with ⟨-, hhands⟩ | ⟨hgt, -⟩
  · exact ⟨s, hrun, hhands, fun hintact => absurd (hhands.unique hintact) (by decide)⟩
  · exact absurd hgt (by decide)

end Server

end Ccybe
