/-
This file is about `serve_probes`, the thread that feeds the clients of a probe.
Within one iteration the client table is polled, then filled by `accept`, thinned
out by the deadlines and thinned out again by a predicate that sends, while the
descriptor sets still describe the table as it was polled.

The kernel is part of the model: it knows which connection is behind an open
descriptor, so a descriptor that is used again is a different connection.
-/

import HyperLink.Runs
import Mathlib.Data.List.ReduceOption
import Mathlib.Data.List.Nodup

namespace HyperLink

/-! ### The kernel -/

/-- The open descriptors of accepted connections, each with the connection behind it, and what
`send` was called on in this iteration. -/
structure Kernel where
  table : List (Nat × Nat) := []
  sends : List (Nat × Nat) := []
  deriving DecidableEq, Repr

def Kernel.close (kernel : Kernel) (descriptor : Nat) : Kernel :=
  { kernel with table := kernel.table.filter fun entry => entry.1 ≠ descriptor }

def Kernel.send (kernel : Kernel) (descriptor : Nat) : Kernel :=
  { kernel with
    sends := kernel.sends ++ kernel.table.filter fun entry => entry.1 = descriptor }

/-- The destructor of a handle, or the assignment to it: a moved-from handle holds nothing. -/
def Kernel.release (kernel : Kernel) : Option Nat → Kernel
  | none => kernel
  | some descriptor => kernel.close descriptor

/-! ### The client table -/

def kMaximumConcurrentProbeClients : Nat := 16

/-- Times are in nanoseconds. -/
structure ActiveProbe where
  socket : Nat
  deadline : Nat
  deriving DecidableEq, Repr

/-- `std::remove_if` and `erase`. The elements before the result position are `kept`, those
between it and the next one to look at hold the sockets in `gap`: removed, or moved from. A kept
element is moved to the result position, which releases what was there; at the end the rest is
destroyed. -/
def removeIf (remove : ActiveProbe → Kernel → Bool × Kernel) (kernel : Kernel)
    (kept : List ActiveProbe) (gap : List (Option Nat)) :
    List ActiveProbe → List ActiveProbe × Kernel
  | [] => (kept, gap.foldl Kernel.release kernel)
  | client :: rest =>
      let (removed, kernel) := remove client kernel
      if removed then removeIf remove kernel kept (gap ++ [some client.socket]) rest
      else
        match gap with
        | [] => removeIf remove kernel (kept ++ [client]) [] rest
        | target :: gap =>
            removeIf remove (kernel.release target) (kept ++ [client]) (gap ++ [none]) rest

/-! ### The loop -/

/-- What a call of `send` does. -/
inductive SendResult where
  | sent
  | nothing
  | wouldBlock
  | failed
  deriving DecidableEq, Repr

def sendProbeBytes : SendResult → Bool
  | .sent => true
  | .nothing => false
  | .wouldBlock => true
  | .failed => false

/-- Where the loop stands; `ready` is whether `select` found anything. -/
inductive Phase where
  | polling
  | accepting
  | expiring (ready : Bool)
  | sending
  | returned
  | terminated
  deriving DecidableEq, Repr

/-- The thread and the kernel. `writable` and `now` are the variables of the iteration; the
clients and the table at its `select` are kept for the statements only. -/
structure ProbeServer where
  activeClients : List ActiveProbe := []
  kernel : Kernel := {}
  accepted : Nat := 0
  phase : Phase := .polling
  writable : List Nat := []
  now : Nat := 0
  polledClients : List ActiveProbe := []
  polledTable : List (Nat × Nat) := []
  deriving DecidableEq, Repr

/-- One statement of the loop, with what it learns from outside: the flag where it is read, and
the answers of the system calls and the clock. -/
inductive ProbeEvent where
  | select (running ready readable : Bool) (writable : Nat → Bool)
  | accept (running : Bool) (client : Option Nat) (nonblocking : Bool) (now : Nat)
  | expire (now : Nat)
  | send (result : Nat → SendResult)

namespace ProbeServer

/-- The top of the loop. The thread returns and drops its clients when the flag is off; else
`select` leaves the ready ones of the clients in the set. -/
def select (server : ProbeServer) (running ready readable : Bool) (writable : Nat → Bool) :
    ProbeServer :=
  if !running then
    { server with
      activeClients := []
      kernel := server.activeClients.foldl (fun kernel client => kernel.close client.socket)
        server.kernel
      phase := .returned }
  else
    { server with
      kernel := { server.kernel with sends := [] }
      phase := if ready && readable then .accepting else .expiring ready
      writable := (server.activeClients.map ActiveProbe.socket).filter writable
      polledClients := server.activeClients
      polledTable := server.kernel.table }

/-- One round of the inner loop. -/
def accept (server : ProbeServer) (running : Bool) (client : Option Nat) (nonblocking : Bool)
    (now : Nat) : ProbeServer :=
  if !running then { server with phase := .expiring true }
  else
    match client with
    | none => { server with phase := .expiring true }
    | some client =>
        let kernel := { server.kernel with
          table := server.kernel.table ++ [(client, server.accepted)] }
        let server := { server with accepted := server.accepted + 1 }
        if server.activeClients.length ≥ kMaximumConcurrentProbeClients then
          { server with kernel := kernel.close client }
        else if !nonblocking then { server with kernel, phase := .terminated }
        else
          { server with
            kernel
            activeClients := server.activeClients ++ [⟨client, now + 1000000000⟩] }

def expire (server : ProbeServer) (ready : Bool) (now : Nat) : ProbeServer :=
  let (activeClients, kernel) := removeIf (fun client kernel => (client.deadline ≤ now, kernel))
    server.kernel [] [] server.activeClients
  { server with activeClients, kernel, now, phase := if ready then .sending else .polling }

def send (server : ProbeServer) (result : Nat → SendResult) : ProbeServer :=
  let (activeClients, kernel) := removeIf
    (fun client kernel =>
      if client.socket ∈ server.writable then
        (!sendProbeBytes (result client.socket), kernel.send client.socket)
      else (false, kernel))
    server.kernel [] [] server.activeClients
  { server with activeClients, kernel, phase := .polling }

/-- The thread does the statement that its phase is at; other events do not concern it. -/
def step (server : ProbeServer) : ProbeEvent → ProbeServer
  | .select running ready readable writable =>
      if server.phase = .polling then server.select running ready readable writable else server
  | .accept running client nonblocking now =>
      if server.phase = .accepting then server.accept running client nonblocking now else server
  | .expire now =>
      match server.phase with
      | .expiring ready => server.expire ready now
      | _ => server
  | .send result => if server.phase = .sending then server.send result else server

end ProbeServer

/-! ### Removing clients -/

theorem foldl_release (gap : List (Option Nat)) (kernel : Kernel) :
    gap.foldl Kernel.release kernel =
      { kernel with table := kernel.table.filter fun entry => entry.1 ∉ gap.reduceOption } := by
  induction gap generalizing kernel with
  | nil => simp
  | cons handle gap inductionHypothesis =>
    rw [List.foldl_cons, inductionHypothesis]
    cases handle with
    | none => rfl
    | some descriptor =>
      simp only [Kernel.release, Kernel.close, List.filter_filter, List.reduceOption_cons_of_some,
        List.mem_cons, not_or, Bool.decide_and, Bool.and_comm]

/-- What a predicate of `remove_if` does to the kernel: it sends to some clients. -/
def Kernel.sendIf (kernel : Kernel) (sends : ActiveProbe → Bool) (client : ActiveProbe) : Kernel :=
  if sends client then kernel.send client.socket else kernel

theorem table_sendIf (kernel : Kernel) (sends : ActiveProbe → Bool) (client : ActiveProbe) :
    (kernel.sendIf sends client).table = kernel.table := by
  unfold Kernel.sendIf
  split <;> rfl

theorem sends_sendIf (kernel : Kernel) (sends : ActiveProbe → Bool) (client : ActiveProbe)
    (rest : List ActiveProbe) :
    (kernel.sendIf sends client).sends ++ (rest.filter sends).flatMap (fun client =>
        kernel.table.filter fun entry => entry.1 = client.socket) =
      kernel.sends ++ ((client :: rest).filter sends).flatMap fun client =>
        kernel.table.filter fun entry => entry.1 = client.socket := by
  unfold Kernel.sendIf
  by_cases named : sends client = true
  · rw [if_pos named, List.filter_cons_of_pos named, List.flatMap_cons, ← List.append_assoc]
    rfl
  · rw [if_neg named, List.filter_cons_of_neg named]

theorem table_release (kernel : Kernel) (handle : Option Nat) :
    (kernel.release handle).table = kernel.table.filter fun entry => entry.1 ∉ handle.toList := by
  cases handle with
  | none => simp [Kernel.release]
  | some descriptor => simp [Kernel.release, Kernel.close]

theorem sends_release (kernel : Kernel) (handle : Option Nat) :
    (kernel.release handle).sends = kernel.sends := by
  cases handle <;> rfl

/-- Releasing a handle leaves the connections of other clients. -/
theorem connections_release {handle : Option Nat} {clients : List ActiveProbe}
    (apart : ∀ client ∈ clients, client.socket ∉ handle.toList) (table : List (Nat × Nat)) :
    (clients.flatMap fun client => (table.filter fun entry => entry.1 ∉ handle.toList).filter
        fun entry => entry.1 = client.socket) =
      clients.flatMap fun client => table.filter fun entry => entry.1 = client.socket := by
  refine List.flatMap_congr fun client member => ?_
  rw [List.filter_filter]
  refine List.filter_congr fun entry _ => ?_
  by_cases same : entry.1 = client.socket
  · simp [same, apart client member]
  · simp [same]

/-- What the algorithm does when its verdict is `remove` and its effect on the kernel is to send
to those that `sends` names: the others stay in their order, each removed client is closed, and
each named client is sent to once, over the connection it had. -/
theorem removeIf_eq (remove sends : ActiveProbe → Bool) (kernel : Kernel)
    (kept : List ActiveProbe) (gap : List (Option Nat)) (clients : List ActiveProbe)
    (distinct : (gap.reduceOption ++ clients.map ActiveProbe.socket).Nodup) :
    removeIf (fun client kernel => (remove client, kernel.sendIf sends client))
        kernel kept gap clients =
      (kept ++ clients.filter (!remove ·),
        { table := kernel.table.filter fun entry =>
            entry.1 ∉ gap.reduceOption ++ (clients.filter remove).map ActiveProbe.socket
          sends := kernel.sends ++ (clients.filter sends).flatMap fun client =>
            kernel.table.filter fun entry => entry.1 = client.socket }) := by
  induction clients generalizing kernel kept gap with
  | nil => simp [removeIf, foldl_release]
  | cons client rest inductionHypothesis =>
    rw [removeIf]
    simp only []
    by_cases out : remove client = true
    · have stay : (client :: rest).filter (!remove ·) = rest.filter (!remove ·) :=
        List.filter_cons_of_neg (by simpa using out)
      have later : (gap ++ [some client.socket]).reduceOption =
          gap.reduceOption ++ [client.socket] := by
        simp [List.reduceOption_append]
      rw [if_pos out, inductionHypothesis _ _ _ (by simpa [later] using distinct), table_sendIf,
        sends_sendIf, later, stay, List.filter_cons_of_pos out, List.map_cons, List.append_assoc,
        List.singleton_append]
    · have stay : (client :: rest).filter (!remove ·) = client :: rest.filter (!remove ·) :=
        List.filter_cons_of_pos (by simpa using out)
      have shift : kept ++ client :: rest.filter (!remove ·) =
          kept ++ [client] ++ rest.filter (!remove ·) := by
        simp
      rw [if_neg out, stay, shift, List.filter_cons_of_neg out]
      cases gap with
      | nil =>
        have others : ([] ++ rest.map ActiveProbe.socket).Nodup := (List.nodup_cons.mp distinct).2
        simp only []
        rw [inductionHypothesis _ _ [] others, table_sendIf, sends_sendIf]
      | cons target gap =>
        have front : (target :: gap).reduceOption = target.toList ++ gap.reduceOption := by
          cases target <;> rfl
        have back : (gap ++ [none]).reduceOption = gap.reduceOption := by
          simp [List.reduceOption_append]
        rw [front, List.append_assoc] at distinct
        have others : ((gap ++ [none]).reduceOption ++ rest.map ActiveProbe.socket).Nodup := by
          rw [back]
          refine (List.nodup_append.mp distinct).2.1.sublist ?_
          exact (List.sublist_cons_self _ _).append_left _
        have apart : ∀ other ∈ rest.filter sends, other.socket ∉ target.toList := by
          intro other member inside
          refine (List.nodup_append.mp distinct).2.2 _ inside _ ?_ rfl
          have named := List.mem_map_of_mem (f := ActiveProbe.socket) (List.mem_filter.mp member).1
          exact List.mem_append_right _ (List.mem_cons_of_mem _ named)
        simp only []
        rw [inductionHypothesis _ _ _ others, sends_release, table_release, table_sendIf,
          connections_release apart, sends_sendIf, front, back, List.filter_filter]
        congr 2
        refine List.filter_congr fun entry _ => ?_
        rw [List.append_assoc, Bool.and_comm, ← Bool.decide_and, decide_eq_decide, ← not_or,
          ← List.mem_append]

/-! ### What every statement keeps -/

namespace ProbeServer

/-- The table of clients and the table of the kernel describe the same connections. -/
structure Exact (server : ProbeServer) : Prop where
  bounded : server.activeClients.length ≤ kMaximumConcurrentProbeClients
  distinct : (server.activeClients.map ActiveProbe.socket).Nodup
  aligned : server.kernel.table.map Prod.fst = server.activeClients.map ActiveProbe.socket
  earlier : ∀ entry ∈ server.kernel.table, entry.2 < server.accepted
  apart : (server.kernel.table.map Prod.snd).Nodup

/-- Each of these clients may be sent to in the current iteration. -/
def MaySend (server : ProbeServer) (entry : Nat × Nat) : Prop :=
  entry ∈ server.polledTable ∧ entry.1 ∈ server.writable ∧
    ∃ client ∈ server.polledClients, client.socket = entry.1 ∧ server.now < client.deadline

/-- Between `select` and the removal of late clients: the tables only grew, and nothing was
sent. -/
structure Polled (server : ProbeServer) : Prop where
  silent : server.kernel.sends = []
  clients : server.polledClients <+: server.activeClients
  table : server.polledTable <+: server.kernel.table
  aligned : server.polledTable.map Prod.fst = server.polledClients.map ActiveProbe.socket
  writable : ∀ descriptor ∈ server.writable,
    descriptor ∈ server.polledClients.map ActiveProbe.socket

/-- What was sent in the iteration, once it is over. -/
def Sent (server : ProbeServer) : Prop :=
  (∀ entry ∈ server.kernel.sends, server.MaySend entry) ∧
    (server.kernel.sends.map Prod.snd).Nodup

/-- What holds in addition in each phase of an iteration. -/
def Iteration (server : ProbeServer) : Prop :=
  match server.phase with
  | .accepting | .expiring _ => server.Polled
  | .sending =>
      server.kernel.sends = [] ∧ ∀ entry ∈ server.kernel.table, entry.1 ∈ server.writable →
        server.MaySend entry
  | .polling | .returned | .terminated => server.Sent

theorem sent_of_silent {server : ProbeServer} (silent : server.kernel.sends = []) :
    server.Sent := by
  rw [Sent, silent]
  exact ⟨fun entry nothing => (by cases nothing), List.nodup_nil⟩

theorem Polled.iteration {server : ProbeServer} (polled : server.Polled)
    (phase : server.phase = .accepting ∨ ∃ ready, server.phase = .expiring ready) :
    server.Iteration := by
  unfold Iteration
  rcases phase with phase | ⟨ready, phase⟩
  · rw [phase]
    exact polled
  · rw [phase]
    exact polled

/-- The kernel gives a descriptor that is not open, and a client can be configured. -/
def Assumed (server : ProbeServer) : ProbeEvent → Prop
  | .accept _ client nonblocking _ =>
      nonblocking = true ∧ ∀ descriptor ∈ client, descriptor ∉ server.kernel.table.map Prod.fst
  | _ => True

/-! ### Removals -/

/-- Closing the removed clients leaves the connections of those that stay. -/
theorem aligned_filter {table : List (Nat × Nat)} {clients : List ActiveProbe}
    (distinct : (clients.map ActiveProbe.socket).Nodup)
    (aligned : table.map Prod.fst = clients.map ActiveProbe.socket) (remove : ActiveProbe → Bool) :
    (table.filter fun entry =>
        entry.1 ∉ (clients.filter remove).map ActiveProbe.socket).map Prod.fst =
      (clients.filter (!remove ·)).map ActiveProbe.socket := by
  have verdict : ∀ client ∈ clients, (!remove client) =
      decide (client.socket ∉ (clients.filter remove).map ActiveProbe.socket) := by
    intro client member
    have iff_ : client.socket ∈ (clients.filter remove).map ActiveProbe.socket ↔
        remove client = true := by
      refine ⟨fun inside => ?_, fun out => ?_⟩
      · obtain ⟨other, found, same⟩ := List.mem_map.mp inside
        obtain ⟨otherMember, out⟩ := List.mem_filter.mp found
        rw [← List.inj_on_of_nodup_map distinct otherMember member same]
        exact out
      · exact List.mem_map_of_mem (List.mem_filter.mpr ⟨member, out⟩)
    simp [iff_]
  rw [List.filter_congr verdict]
  have left := List.filter_map (f := Prod.fst) (l := table)
    (p := fun descriptor => decide (descriptor ∉ (clients.filter remove).map ActiveProbe.socket))
  have right := List.filter_map (f := ActiveProbe.socket) (l := clients)
    (p := fun descriptor => decide (descriptor ∉ (clients.filter remove).map ActiveProbe.socket))
  rw [aligned, right] at left
  exact left.symm

/-- A removal keeps the two tables together. -/
theorem Exact.filter {server : ProbeServer} (exact_ : server.Exact) (remove : ActiveProbe → Bool)
    {after : ProbeServer} (clients : after.activeClients = server.activeClients.filter (!remove ·))
    (table : after.kernel.table = server.kernel.table.filter fun entry =>
      entry.1 ∉ (server.activeClients.filter remove).map ActiveProbe.socket)
    (accepted : after.accepted = server.accepted) : after.Exact where
  bounded := by
    rw [clients]
    exact Nat.le_trans (List.length_filter_le _ _) exact_.bounded
  distinct := by
    rw [clients]
    exact exact_.distinct.sublist (List.filter_sublist.map _)
  aligned := by
    rw [clients, table]
    exact aligned_filter exact_.distinct exact_.aligned remove
  earlier := by
    intro entry member
    rw [table] at member
    rw [accepted]
    exact exact_.earlier entry (List.mem_filter.mp member).1
  apart := by
    rw [table]
    exact exact_.apart.sublist (List.filter_sublist.map _)

/-- The clients whose time is over. -/
def due (now : Nat) (client : ActiveProbe) : Bool := client.deadline ≤ now

/-- The clients that were reported writable. -/
def named (server : ProbeServer) (client : ActiveProbe) : Bool := client.socket ∈ server.writable

/-- The clients that a failed `send` removes. -/
def broken (server : ProbeServer) (result : Nat → SendResult) (client : ActiveProbe) : Bool :=
  server.named client && !sendProbeBytes (result client.socket)

/-- `expire` in terms of the lists. -/
theorem expire_eq {server : ProbeServer} (exact_ : server.Exact) (ready : Bool) (now : Nat) :
    server.expire ready now = { server with
      activeClients := server.activeClients.filter (!due now ·)
      kernel := { server.kernel with table := server.kernel.table.filter fun entry =>
        entry.1 ∉ (server.activeClients.filter (due now)).map ActiveProbe.socket }
      now := now
      phase := if ready then .sending else .polling } := by
  have removed := removeIf_eq (due now) (fun _ => false) server.kernel [] [] server.activeClients
    exact_.distinct
  have effect : (fun (client : ActiveProbe) (kernel : Kernel) =>
      (due now client, kernel.sendIf (fun _ => false) client)) =
      fun client kernel => (decide (client.deadline ≤ now), kernel) := rfl
  rw [effect] at removed
  rw [expire, removed]
  simp

/-- `send` in terms of the lists. -/
theorem send_eq {server : ProbeServer} (exact_ : server.Exact) (result : Nat → SendResult) :
    server.send result = { server with
      activeClients := server.activeClients.filter (!server.broken result ·)
      kernel :=
        { table := server.kernel.table.filter fun entry =>
            entry.1 ∉ (server.activeClients.filter (server.broken result)).map ActiveProbe.socket
          sends := server.kernel.sends ++ (server.activeClients.filter server.named).flatMap
            fun client => server.kernel.table.filter fun entry => entry.1 = client.socket }
      phase := .polling } := by
  have removed := removeIf_eq (server.broken result) server.named server.kernel [] []
    server.activeClients exact_.distinct
  have effect : (fun (client : ActiveProbe) (kernel : Kernel) =>
      (server.broken result client, kernel.sendIf server.named client)) =
      fun client kernel =>
        if client.socket ∈ server.writable then
          (!sendProbeBytes (result client.socket), kernel.send client.socket)
        else (false, kernel) := by
    funext client kernel
    by_cases inside : client.socket ∈ server.writable <;>
      simp [broken, named, Kernel.sendIf, inside]
  rw [effect] at removed
  rw [send, removed]
  simp

/-! ### One statement -/

/-- What every statement keeps. -/
def Sound (server : ProbeServer) : Prop := server.Exact ∧ server.Iteration

theorem foldl_close (clients : List ActiveProbe) (kernel : Kernel) :
    clients.foldl (fun kernel client => kernel.close client.socket) kernel =
      { kernel with table := kernel.table.filter fun entry =>
          entry.1 ∉ clients.map ActiveProbe.socket } := by
  have handles := foldl_release (clients.map fun client => some client.socket) kernel
  rw [List.foldl_map] at handles
  have sockets : (clients.map fun client => some client.socket).reduceOption =
      clients.map ActiveProbe.socket := by
    simp [List.reduceOption, List.filterMap_map]
  rw [sockets] at handles
  exact handles

theorem Sound.select {server : ProbeServer} (sound : server.Sound)
    (polling : server.phase = .polling) (running ready readable : Bool)
    (writable : Nat → Bool) : (server.select running ready readable writable).Sound := by
  obtain ⟨exact_, iteration⟩ := sound
  unfold ProbeServer.select
  cases running with
  | true =>
    refine ⟨⟨exact_.bounded, exact_.distinct, exact_.aligned, exact_.earlier, exact_.apart⟩, ?_⟩
    refine Polled.iteration ⟨rfl, List.prefix_rfl, List.prefix_rfl, exact_.aligned,
      fun descriptor member => (List.mem_filter.mp member).1⟩ ?_
    simp only [Bool.not_true, Bool.false_eq_true, if_false]
    split
    · exact .inl rfl
    · exact .inr ⟨ready, rfl⟩
  | false =>
    rw [Iteration, polling] at iteration
    have empty : (server.kernel.table.filter fun entry =>
        entry.1 ∉ server.activeClients.map ActiveProbe.socket) = [] := by
      rw [← exact_.aligned, List.filter_eq_nil_iff]
      intro entry member
      simpa using ⟨entry.2, member⟩
    rw [foldl_close, empty]
    exact ⟨⟨Nat.zero_le _, List.nodup_nil, rfl, fun entry nothing => (by cases nothing),
      List.nodup_nil⟩, iteration⟩

/-- Closing what was just accepted leaves the table as it was. -/
theorem close_opened {table : List (Nat × Nat)} {descriptor : Nat}
    (fresh : descriptor ∉ table.map Prod.fst) (connection : Nat) (sends : List (Nat × Nat)) :
    Kernel.close ⟨table ++ [(descriptor, connection)], sends⟩ descriptor = ⟨table, sends⟩ := by
  rw [Kernel.close, List.filter_append, List.filter_eq_self.mpr, List.filter_eq_nil_iff.mpr,
    List.append_nil]
  · simp
  · intro entry member
    simp only [decide_eq_true_eq]
    exact fun same => fresh (same ▸ List.mem_map_of_mem member)

/-- A new client keeps the tables together. -/
theorem Exact.opened {server : ProbeServer} (exact_ : server.Exact) (client : ActiveProbe)
    (room : server.activeClients.length < kMaximumConcurrentProbeClients)
    (fresh : client.socket ∉ server.kernel.table.map Prod.fst) :
    Exact { server with
      accepted := server.accepted + 1
      kernel := { server.kernel with
        table := server.kernel.table ++ [(client.socket, server.accepted)] }
      activeClients := server.activeClients ++ [client] } where
  bounded := by
    rw [List.length_append, List.length_singleton]
    exact room
  distinct := by
    rw [List.map_append, ← exact_.aligned, List.map_singleton, ← List.concat_eq_append]
    refine List.Nodup.concat fresh ?_
    rw [exact_.aligned]
    exact exact_.distinct
  aligned := by
    rw [List.map_append, List.map_append, exact_.aligned]
    rfl
  earlier := by
    intro entry member
    rcases List.mem_append.mp member with old | new
    · exact Nat.lt_succ_of_lt (exact_.earlier entry old)
    · rw [List.mem_singleton.mp new]
      exact Nat.lt_succ_self _
  apart := by
    rw [List.map_append, List.map_singleton, ← List.concat_eq_append]
    refine List.Nodup.concat (fun inside => ?_) exact_.apart
    obtain ⟨entry, member, same⟩ := List.mem_map.mp inside
    exact Nat.ne_of_lt (exact_.earlier entry member) same

theorem Sound.accept {server : ProbeServer} (sound : server.Sound)
    (accepting : server.phase = .accepting) (running : Bool) (client : Option Nat) (now : Nat)
    (fresh : ∀ descriptor ∈ client, descriptor ∉ server.kernel.table.map Prod.fst) :
    (server.accept running client true now).Sound := by
  obtain ⟨exact_, iteration⟩ := sound
  rw [Iteration, accepting] at iteration
  have polled : server.Polled := iteration
  have expiring : Sound { server with phase := .expiring true } := by
    refine ⟨⟨exact_.bounded, exact_.distinct, exact_.aligned, exact_.earlier, exact_.apart⟩, ?_⟩
    exact Polled.iteration ⟨polled.silent, polled.clients, polled.table, polled.aligned,
      polled.writable⟩ (.inr ⟨true, rfl⟩)
  unfold ProbeServer.accept
  cases running with
  | false => exact expiring
  | true =>
    cases client with
    | none => exact expiring
    | some client =>
      have notOpen := fresh client rfl
      simp only [Bool.not_true, Bool.false_eq_true, if_false]
      split
      next full =>
        -- The handle of a surplus client closes what was just accepted.
        rw [close_opened notOpen]
        refine ⟨⟨exact_.bounded, exact_.distinct, exact_.aligned, ?_, exact_.apart⟩, ?_⟩
        · intro entry member
          exact Nat.lt_succ_of_lt (exact_.earlier entry member)
        · exact Polled.iteration ⟨polled.silent, polled.clients, polled.table, polled.aligned,
            polled.writable⟩ (.inl accepting)
      next room =>
        have opened := exact_.opened ⟨client, now + 1000000000⟩ (Nat.lt_of_not_ge room) notOpen
        refine ⟨⟨opened.bounded, opened.distinct, opened.aligned, opened.earlier, opened.apart⟩, ?_⟩
        exact Polled.iteration ⟨polled.silent, polled.clients.trans (List.prefix_append _ _),
          polled.table.trans (List.prefix_append _ _), polled.aligned, polled.writable⟩
          (.inl accepting)

/-- A client that is not late when the set of ready descriptors names it was polled. -/
theorem Polled.maySend {server : ProbeServer} (exact_ : server.Exact) (polled : server.Polled)
    {now : Nat} {entry : Nat × Nat} (member : entry ∈ server.kernel.table)
    (inTime : entry.1 ∉ (server.activeClients.filter (due now)).map ActiveProbe.socket)
    (ready : entry.1 ∈ server.writable) :
    entry ∈ server.polledTable ∧
      ∃ client ∈ server.polledClients, client.socket = entry.1 ∧ now < client.deadline := by
  have wasPolled := polled.writable entry.1 ready
  refine ⟨?_, ?_⟩
  · rw [← polled.aligned] at wasPolled
    obtain ⟨other, otherMember, same⟩ := List.mem_map.mp wasPolled
    have distinct := exact_.distinct
    rw [← exact_.aligned] at distinct
    rw [← List.inj_on_of_nodup_map distinct (polled.table.subset otherMember) member same]
    exact otherMember
  · obtain ⟨client, clientMember, same⟩ := List.mem_map.mp wasPolled
    refine ⟨client, clientMember, same, ?_⟩
    by_contra late
    refine inTime (same ▸ List.mem_map_of_mem (List.mem_filter.mpr ⟨?_, ?_⟩))
    · exact polled.clients.subset clientMember
    · simpa [due] using late

theorem Sound.expire {server : ProbeServer} (sound : server.Sound) {ready : Bool}
    (expiring : server.phase = .expiring ready) (now : Nat) : (server.expire ready now).Sound := by
  obtain ⟨exact_, iteration⟩ := sound
  rw [Iteration, expiring] at iteration
  have polled : server.Polled := iteration
  rw [expire_eq exact_]
  refine ⟨exact_.filter (due now) rfl rfl rfl, ?_⟩
  cases ready with
  | false => exact sent_of_silent polled.silent
  | true =>
    refine ⟨polled.silent, fun entry member named => ?_⟩
    obtain ⟨inside, inTime⟩ := List.mem_filter.mp member
    obtain ⟨inTable, inClients⟩ := polled.maySend exact_ inside (by simpa using inTime) named
    exact ⟨inTable, named, inClients⟩

/-- Clients with descriptors of their own are sent to over connections of their own. -/
theorem nodup_connections {table : List (Nat × Nat)} (apart : (table.map Prod.snd).Nodup)
    {clients : List ActiveProbe} (distinct : (clients.map ActiveProbe.socket).Nodup) :
    ((clients.flatMap fun client =>
      table.filter fun entry => entry.1 = client.socket).map Prod.snd).Nodup := by
  have once : (clients.flatMap fun client =>
      table.filter fun entry => entry.1 = client.socket).Nodup := by
    rw [List.nodup_flatMap]
    refine ⟨fun client _ => (List.Nodup.of_map _ apart).filter _, ?_⟩
    refine (List.pairwise_map.mp distinct).imp fun different => ?_
    intro entry here there
    have first := (List.mem_filter.mp here).2
    have second := (List.mem_filter.mp there).2
    rw [decide_eq_true_eq] at first second
    exact different (first.symm.trans second)
  refine once.map_on fun entry member other otherMember same => ?_
  obtain ⟨_, _, found⟩ := List.mem_flatMap.mp member
  obtain ⟨_, _, otherFound⟩ := List.mem_flatMap.mp otherMember
  exact List.inj_on_of_nodup_map apart (List.mem_filter.mp found).1
    (List.mem_filter.mp otherFound).1 same

theorem Sound.send {server : ProbeServer} (sound : server.Sound)
    (sending : server.phase = .sending) (result : Nat → SendResult) :
    (server.send result).Sound := by
  obtain ⟨exact_, iteration⟩ := sound
  rw [Iteration, sending] at iteration
  obtain ⟨silent, may⟩ := iteration
  rw [send_eq exact_]
  refine ⟨exact_.filter (server.broken result) rfl rfl rfl, ?_⟩
  have sends : ∀ entry ∈ (server.activeClients.filter server.named).flatMap fun client =>
      server.kernel.table.filter fun entry => entry.1 = client.socket,
      entry ∈ server.kernel.table ∧ entry.1 ∈ server.writable := by
    intro entry member
    obtain ⟨client, isNamed, found⟩ := List.mem_flatMap.mp member
    obtain ⟨inside, same⟩ := List.mem_filter.mp found
    have named := (List.mem_filter.mp isNamed).2
    rw [decide_eq_true_eq] at same
    rw [same]
    exact ⟨inside, by simpa [ProbeServer.named] using named⟩
  refine ⟨?_, ?_⟩
  · intro entry member
    rw [silent, List.nil_append] at member
    obtain ⟨inside, named⟩ := sends entry member
    exact may entry inside named
  · show (List.map Prod.snd (server.kernel.sends ++ _)).Nodup
    rw [silent, List.nil_append]
    exact nodup_connections exact_.apart (exact_.distinct.sublist (List.filter_sublist.map _))

theorem step_sound {server : ProbeServer} (sound : server.Sound) {event : ProbeEvent}
    (assumed : server.Assumed event) : (server.step event).Sound := by
  cases event with
  | select running ready readable writable =>
    rw [step]
    split
    next polling => exact sound.select polling running ready readable writable
    next => exact sound
  | accept running client nonblocking now =>
    obtain ⟨rfl, fresh⟩ := assumed
    rw [step]
    split
    next accepting => exact sound.accept accepting running client now fresh
    next => exact sound
  | expire now =>
    rw [step]
    split
    next ready expiring => exact sound.expire expiring now
    next => exact sound
  | send result =>
    rw [step]
    split
    next sending => exact sound.send sending result
    next => exact sound

theorem sound_start : Sound {} where
  left :=
    { bounded := Nat.zero_le _
      distinct := List.nodup_nil
      aligned := rfl
      earlier := fun entry nothing => (by cases nothing)
      apart := List.nodup_nil }
  right := sent_of_silent rfl

/-- Every run that meets the assumptions keeps the tables exact. -/
theorem sound_after {events : List ProbeEvent} (assumed : Runs.Meets step Assumed {} events) :
    (Runs.after step {} events).Sound :=
  Runs.invariant_after sound_start (fun _ _ sound allowed => step_sound sound allowed) events
    assumed

/-- Nothing was sent before the phase that sends. -/
theorem Sound.sent {server : ProbeServer} (sound : server.Sound) : server.Sent := by
  have iteration := sound.2
  unfold Iteration at iteration
  split at iteration
  · exact sent_of_silent iteration.silent
  · exact sent_of_silent iteration.silent
  · exact sent_of_silent iteration.1
  · exact iteration
  · exact iteration
  · exact iteration

/-- When late clients are removed, their connections are closed. -/
theorem Sound.expired {server : ProbeServer} (sound : server.Sound) {ready : Bool} {now : Nat}
    {client : ActiveProbe} (member : client ∈ server.activeClients)
    (late : client.deadline ≤ now) :
    client ∉ (server.expire ready now).activeClients ∧
      ∀ connection, (client.socket, connection) ∈ server.kernel.table →
        connection ∉ (server.expire ready now).kernel.table.map Prod.snd := by
  rw [expire_eq sound.1]
  refine ⟨fun inside => ?_, fun connection behind inside => ?_⟩
  · have inTime := (List.mem_filter.mp inside).2
    simp [due, late] at inTime
  · obtain ⟨entry, found, same⟩ := List.mem_map.mp inside
    obtain ⟨inTable, stays⟩ := List.mem_filter.mp found
    rw [List.inj_on_of_nodup_map sound.1.apart inTable behind same, decide_eq_true_eq] at stays
    exact stays (List.mem_map_of_mem (List.mem_filter.mpr ⟨member, decide_eq_true late⟩))

/-- The client table of the probe server is bounded and exact. After every statement it holds at
most sixteen clients, with open descriptors that differ; a connection that was accepted is in it
or closed; what an iteration sent went, once each, over connections that were polled at its
`select`, reported writable and not late; and a late client is closed when the iteration reads
its clock. -/
theorem serveProbes_exact (events : List ProbeEvent)
    (assumed : Runs.Meets step Assumed {} events) :
    let server := Runs.after step {} events
    server.activeClients.length ≤ 16 ∧
      (server.activeClients.map ActiveProbe.socket).Nodup ∧
      (∀ client ∈ server.activeClients, ∃ connection,
        (client.socket, connection) ∈ server.kernel.table) ∧
      (∀ connection < server.accepted, connection ∉ server.kernel.table.map Prod.snd ∨
        ∃ client ∈ server.activeClients, (client.socket, connection) ∈ server.kernel.table) ∧
      (∀ entry ∈ server.kernel.sends, entry ∈ server.polledTable ∧ entry.1 ∈ server.writable ∧
        ∃ client ∈ server.polledClients, client.socket = entry.1 ∧ server.now < client.deadline) ∧
      (server.kernel.sends.map Prod.snd).Nodup ∧
      ∀ ready now, server.phase = .expiring ready →
        ∀ client ∈ server.activeClients, client.deadline ≤ now →
          client ∉ (server.step (.expire now)).activeClients ∧
          ∀ connection, (client.socket, connection) ∈ server.kernel.table →
            connection ∉ (server.step (.expire now)).kernel.table.map Prod.snd := by
  intro server
  have sound : server.Sound := sound_after assumed
  refine ⟨sound.1.bounded, sound.1.distinct, ?_, ?_, sound.sent.1, sound.sent.2, ?_⟩
  · intro client member
    have named := List.mem_map_of_mem (f := ActiveProbe.socket) member
    rw [← sound.1.aligned] at named
    obtain ⟨entry, inside, same⟩ := List.mem_map.mp named
    exact ⟨entry.2, same ▸ inside⟩
  · intro connection _
    refine Classical.or_iff_not_imp_left.mpr fun isOpen => ?_
    obtain ⟨entry, inside, same⟩ := List.mem_map.mp (not_not.mp isOpen)
    have named := List.mem_map_of_mem (f := Prod.fst) inside
    rw [sound.1.aligned] at named
    obtain ⟨client, member, sameSocket⟩ := List.mem_map.mp named
    refine ⟨client, member, ?_⟩
    rw [sameSocket, ← same]
    exact inside
  · intro ready now expiring client member late
    have step_ : server.step (.expire now) = server.expire ready now := by
      rw [step, expiring]
    rw [step_]
    exact sound.expired member late

/-- A client is accepted in one iteration and fed in the next. -/
def twoIterations : List ProbeEvent :=
  [.select true true true fun _ => false,
    .accept true (some 7) true 0, .accept true none true 0,
    .expire 5, .send fun _ => .failed,
    .select true true false fun _ => true,
    .expire 6, .send fun _ => .sent]

theorem twoIterations_assumed : Runs.Meets step Assumed {} twoIterations := by
  refine Runs.meets_cons.mpr ⟨trivial, Runs.meets_cons.mpr ⟨⟨rfl, by decide⟩,
    Runs.meets_cons.mpr ⟨⟨rfl, by decide⟩, Runs.meets_cons.mpr ⟨trivial,
    Runs.meets_cons.mpr ⟨trivial, Runs.meets_cons.mpr ⟨trivial, Runs.meets_cons.mpr ⟨trivial,
    Runs.meets_cons.mpr ⟨trivial, Runs.meets_nil⟩⟩⟩⟩⟩⟩⟩⟩

theorem twoIterations_exact :
    (Runs.after step {} twoIterations).kernel.sends = [(7, 0)] ∧
      (Runs.after step {} twoIterations).activeClients.length ≤ 16 :=
  ⟨by decide, (serveProbes_exact twoIterations twoIterations_assumed).1⟩

end ProbeServer

end HyperLink
