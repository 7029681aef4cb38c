/-
This file is about whole parallel transfers, from the sender's files to the
receiver's. Both ends run at once, and whatever fails on the way: when the sender
and the receiver both return with success, the receiver has what the sender had.

For a file the receiver's calls may fail too, since it notices each that does. Only
bytes that an output stream takes and then loses go unnoticed, so that has to be
excluded. The receiver of a directory passes over more on purpose (a mode that
cannot be set, a link that becomes a text file), so there its calls have to succeed;
then the tree arrives, but for the mode bits that the close of a stream takes away.
-/

import HyperLink.BothEnds

namespace HyperLink

open Threads FileSystem

namespace Live

/-- Where both ends report success, the senders have the results of senders that nothing fails, and
the receiver has the world and the results of one that knows its connections, each with all that
its sender sends, in a run that was permitted what this one was. -/
theorem known_of_success {streams : Nat} {options : Options} {rounds : Nat} {fs : FileSystem}
    {source : Path → Option Node} {sent : Fin streams → Sent}
    {programs : Fin streams → Program SendCall SendReply StreamResult}
    {events : List (LinkEvent streams)} {link : Link streams}
    (reached : Runs.after (Link.step source) (Link.start programs options rounds fs) events = link)
    (sound : link.Sound source sent rounds)
    (enough : ∀ stream, (sent stream).bytes.length < rounds)
    {outcomes results : Fin streams → StreamResult} (sending : link.senders.FinishedWith outcomes)
    (clean : ∀ stream, (outcomes stream).error = none)
    (receiving : link.receivers.FinishedWith results)
    (fine : ∀ stream, (results stream).error = none) {permitted : Fault → Call → World → Prop}
    (permits : Runs.Meets (Link.step source) (Link.Permits permitted)
      (Link.start programs options rounds fs) events) :
    (outcomes = fun stream => (sent stream).result) ∧
    ∃ (fragments : Fin streams → List Nat) (schedule : List (Fin streams × Fault)),
      let known := startReceive options fs fun stream => ⟨(sent stream).bytes, fragments stream⟩
      known.Admissible HyperLink.perform permitted schedule ∧
      (known.run HyperLink.perform schedule).world = link.receivers.world.receiver ∧
      (known.run HyperLink.perform schedule).FinishedWith results := by
  have live : link.receivers =
      (start options rounds fs).runLive perform (events.filterMap Link.received) := by
    rw [← reached]
    exact Link.receivers_after _ events
  have delivered := fun stream => sound.delivered (enough stream) (sending stream) (clean stream)
    (receiving stream) (fine stream)
  have few : ∀ stream, (((start options rounds fs).runLive perform
      (events.filterMap Link.received)).world.given stream).length ≤ rounds := fun stream => by
    rw [← live]
    exact (congrArg List.length (delivered stream).2.1).trans_le (enough stream).le
  -- What arrived on the connections is what the senders send.
  have whole : arrived options rounds fs (events.filterMap Link.received) = fun stream =>
      ⟨(sent stream).bytes,
        (arrived options rounds fs (events.filterMap Link.received) stream).fragments⟩ := by
    funext stream
    have given : (arrived options rounds fs (events.filterMap Link.received) stream).remaining =
        (sent stream).bytes := by
      rw [remaining_arrived, ← live]
      exact (delivered stream).2.1
    exact congrArg (Connection.mk · _) given
  have admissible := admissible_calls few (Link.permits_received permits)
  obtain ⟨world, ended⟩ := runLive_known few
  rw [whole] at admissible world ended
  refine ⟨funext fun stream => (delivered stream).1, _, _, admissible, world.trans (by rw [live]),
    fun stream => ?_⟩
  obtain ⟨plain, known, rfl | ⟨-, failed, -⟩⟩ := ended stream _ (live ▸ receiving stream)
  · exact known
  · exact absurd (fine stream) failed

/-! ### A file -/

section File

variable {options : Options} {content name : Bytes}

end File

/-! ### A directory -/

section Directory

variable {tree : SourceTree} {options : Options} {sort : List DirectoryItem → List DirectoryItem}

/-- The threads of `run_send` for a directory. -/
def directoryThread (options : Options) (sort : List DirectoryItem → List DirectoryItem)
    (listing : List (Path × Node)) (stream : Fin options.parallel.toNat) :
    Program SendCall SendReply StreamResult :=
  let items := collectDirectoryItems options.file listing
  let partitions := partitionDirectoryItems sort items options.parallel.toNat
  sending (sendDirectoryItems (partitions.getD stream {}).items)

/-- A directory from end to end. However the threads of both ends take turns and whatever fails,
what the receiver was given was sent, and belongs to the directory. And if the calls of the
receiver on its file system succeed, and the sender and the receiver both report success, then
they report the same number of bytes, and the tree is there, and nothing else under its name; only
the mode bits may be missing that the close of a stream takes away. -/
theorem directoryTransfer_endToEnd (sorts : SortsBySize sort) (parallel : 1 < options.parallel)
    (sent : options.file.filename = tree.root) {fs : FileSystem} (isTree : fs.IsTree)
    {home : Location} (named : fs.Names options.outputDir home)
    (absent : fs.lookup (home ++ [tree.root]) = none) (privileged : Bool) {rounds : Nat}
    (enough : ∀ stream,
      (sendDirectory options sort (tree.listing options.file) stream).bytes.length < rounds)
    (events : List (LinkEvent options.parallel.toNat))
    (allowed : Runs.Meets (Link.step fun path => (tree.listing options.file).lookup path)
      Link.Allowed (Link.start (directoryThread options sort (tree.listing options.file)) options
        rounds fs) events) :
    let begins := Link.start (directoryThread options sort (tree.listing options.file)) options
      rounds fs
    let step := Link.step fun path => (tree.listing options.file).lookup path
    let link := Runs.after step begins events
    (∀ stream, link.given stream <+: link.wire stream ∧
      link.wire stream <+: (sendDirectory options sort (tree.listing options.file)
        stream).bytes) ∧
    (Runs.Meets step (Link.Permits (Closing (ClosesAs privileged))) begins events →
      ∀ outcomes results, link.senders.FinishedWith outcomes →
        link.receivers.FinishedWith results →
        ∀ total received, finishTransfer (List.ofFn outcomes) = .ok total →
          finishTransfer (List.ofFn results) = .ok received →
          received = total ∧ link.receivers.world.receiver.fs.ReproducesClosed
            (ClosesAs privileged) home tree) := by
  intro begins step link
  have streams : 0 < options.parallel.toNat :=
    Nat.lt_trans Nat.zero_lt_one (UInt32.lt_iff_toNat_lt.mp parallel)
  have sound : link.Sound (fun path => (tree.listing options.file).lookup path)
      (sendDirectory options sort (tree.listing options.file)) rounds :=
    Link.sound_after (Link.sound_start (fun stream => sendDirectoryItems_sends _ _) options fs)
      allowed
  refine ⟨sound.prefixes, fun permits outcomes results sending receiving total received sentAll
    receivedAll => ?_⟩
  obtain ⟨same, fragments, schedule, admissible, world, known⟩ := known_of_success rfl sound
    enough sending (clean_of_finishTransfer sentAll) receiving
    (clean_of_finishTransfer receivedAll) permits
  have arrives := SourceTree.arrives_closed sorts streams sent isTree named absent
    (⟨.none, fun _ => by decide⟩ : ∃ fault, ClosesAs privileged fault)
  obtain ⟨-, reproduced, sum, receivedSum, sentSum⟩ :=
    (arrives.2 fragments).2 schedule admissible results known
  rw [world] at reproduced
  rw [same] at sentAll
  exact ⟨Except.ok.inj ((receivedAll.symm.trans receivedSum).trans (sentSum.symm.trans sentAll)),
    reproduced⟩

/-- The program of three bytes over two streams, of which the second has nothing to carry. The
output stream holds the bytes back until it is closed. -/
def heldBack (first second : Fin smallTransfer.parallel.toNat) :
    List (LinkEvent smallTransfer.parallel.toNat) :=
  let sent := (sendDirectory smallTransfer sortBySize
    (setUserIdTree.listing smallTransfer.file) first).bytes
  List.replicate 9 (.send first {}) ++ List.replicate 2 (.send second {}) ++
    ([0, 0, 48, 49, 49, 97, 100, 100, 100, 103, 103].map fun taken =>
      .receive first { arrival := .ok (sent.drop taken) }) ++
    [.receive first { fault := .first }, .receive first {}, .receive second {},
      .receive second {}]

/-- Both ends report success, and the program is there, but for its set-user-ID bit. -/
theorem directoryTransfer_endToEnd_heldBack :
    (Runs.after (Link.step fun path => (setUserIdTree.listing smallTransfer.file).lookup path)
      (Link.start (directoryThread smallTransfer sortBySize
        (setUserIdTree.listing smallTransfer.file)) smallTransfer 128 rootOnly)
      (heldBack ⟨0, by decide⟩ ⟨1, by decide⟩)).receivers.world.receiver.fs.ReproducesClosed
        (ClosesAs false) [] setUserIdTree := by
  have whole := @directoryTransfer_endToEnd setUserIdTree smallTransfer sortBySize
    sortBySize_sorts (by decide) (by decide) rootOnly
    (isTree_of_entries (by decide) (by decide)) [] ⟨by decide, by decide, by decide⟩
    (by decide) false 128 (by decide +kernel) (heldBack ⟨0, by decide⟩ ⟨1, by decide⟩)
    (by decide +kernel)
  let results := fun stream : Fin smallTransfer.parallel.toNat =>
    (⟨if stream.val = 0 then 3 else 0, none⟩ : StreamResult)
  exact (whole.2 (by decide +kernel) results results (by decide +kernel) (by decide +kernel)
    3 3 (by decide) (by decide)).2

end Directory

end Live

end HyperLink
