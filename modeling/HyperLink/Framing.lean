/-
This file is about the sender of a directory while its source changes. The size
of an item's payload is announced from what was found when the items were
collected, and the payload is read again when the item's turn comes. The loop
over a file sends what was announced or fails. The target of a link is sent as
it is then, whatever was announced.
-/

import HyperLink.Partition

namespace HyperLink

/-- What the sender finds at a path when an item's turn comes: what a read of some size at some
position gives, if the file can be opened, and the target, if the link can be read. -/
structure SourceNow where
  input : Option (Nat → Nat → Bytes)
  target : Option Bytes

/-- The loop over a file, with what each read gives. -/
def sendReads (read : Nat → Nat → Bytes) (position missing : Nat) : Bytes × Option Error :=
  if _complete : missing = 0 then ([], none)
  else
    let chunk := (read position (min missing kChunkBytes)).take (min missing kChunkBytes)
    if _ended : chunk.length = 0 then ([], some inputEnded)
    else
      let later := sendReads read (position + chunk.length) (missing - chunk.length)
      (chunk ++ later.1, later.2)
termination_by missing
decreasing_by exact Nat.sub_lt (Nat.pos_of_ne_zero _complete) (Nat.pos_of_ne_zero _ended)

/-- The payload of one item, and the exception that ends it. -/
def payloadNow (now : SourceNow) (item : DirectoryItem) : Bytes × Option Error :=
  match item.kind with
  | .directoryFile =>
      match now.input with
      | some read => sendReads read 0 item.payloadSize.toNat
      | none => ([], some (ascii "failed to open input file: " ++ item.source.string))
  | .directorySymlink =>
      match now.target with
      | some target => (target, none)
      | none => ([], some (filesystemError item.source))
  | _ => ([], none)

/-- `send_directory_items` while the source changes: the items whose header was sent, each with
the bytes that follow its name, and `result.error`. The source is what is found at each turn. -/
def sendItems (source : Nat → Path → SourceNow) :
    List DirectoryItem → List (DirectoryItem × Bytes) × Option Error
  | [] => ([], none)
  | item :: rest =>
      let payload := payloadNow (source 0 item.source) item
      match payload.2 with
      | some error => ([(item, payload.1)], some error)
      | none =>
          let later := sendItems (fun turn => source (turn + 1)) rest
          ((item, payload.1) :: later.1, later.2)

/-- What goes over the connection for one item. -/
def segmentBytes (segment : DirectoryItem × Bytes) : Bytes :=
  makeHeader segment.1.kind segment.1.payloadSize (sizeField segment.1.relativePath)
    segment.1.mode 0 ++ segment.1.relativePath ++ segment.2

/-! ### A source that stays as it is -/

/-- A source that shows the same listing at every turn. -/
def sourceOf (listing : List (Path × Node)) (path : Path) : SourceNow where
  input := match listing.lookup path with
    | some (.file content _) => some fun position size => (content.drop position).take size
    | _ => none
  target := match listing.lookup path with
    | some (.symlink target) => some target
    | _ => none

theorem sendReads_content (content : Bytes) (position missing : Nat) :
    sendReads (fun position size => (content.drop position).take size) position missing =
      sendPayload content position missing := by
  induction missing using Nat.strong_induction_on generalizing position with
  | _ missing inductionHypothesis =>
    rw [sendReads, sendPayload]
    simp only [List.take_take, Nat.min_self]
    split
    · rfl
    · split
      · rfl
      · rename_i more some
        rw [inductionHypothesis _ (Nat.sub_lt (Nat.pos_of_ne_zero more) (Nat.pos_of_ne_zero some))]

theorem payloadNow_sourceOf (listing : List (Path × Node)) (item : DirectoryItem) :
    payloadNow (sourceOf listing item.source) item = itemPayload listing item := by
  unfold payloadNow itemPayload sourceOf
  cases item.kind with
  | directoryFile =>
    cases listing.lookup item.source with
    | none => rfl
    | some node =>
      cases node with
      | file content mode => exact sendReads_content content 0 item.payloadSize.toNat
      | _ => rfl
  | directorySymlink =>
    cases listing.lookup item.source with
    | none => rfl
    | some node => cases node <;> rfl
  | _ => rfl

/-- If the source does not change, the items are sent as in `sendDirectoryItems`. -/
theorem sendDirectoryItems_eq_sendItems (listing : List (Path × Node))
    (items : List DirectoryItem) :
    (sendDirectoryItems listing items).bytes =
        (sendItems (fun _ => sourceOf listing) items).1.flatMap segmentBytes ∧
      (sendDirectoryItems listing items).result.error =
        (sendItems (fun _ => sourceOf listing) items).2 := by
  induction items with
  | nil => exact ⟨rfl, rfl⟩
  | cons item rest inductionHypothesis =>
    rw [sendDirectoryItems, sendItems, payloadNow_sourceOf]
    cases failed : (itemPayload listing item).2 with
    | some error => simp [segmentBytes]
    | none =>
      simp only [List.flatMap_cons, segmentBytes]
      exact ⟨by rw [inductionHypothesis.1], inductionHypothesis.2⟩

/-! ### Announced and sent -/

/-- Every item whose header was sent is followed by as many bytes as it announced, or it is
the last one and the stream has failed. -/
def Framed (source : Nat → Path → SourceNow) (items : List DirectoryItem) : Prop :=
  ∀ (index : Nat) (segment : DirectoryItem × Bytes),
    (sendItems source items).1[index]? = some segment →
      segment.2.length = segment.1.payloadSize.toNat ∨
        (index + 1 = (sendItems source items).1.length ∧ (sendItems source items).2 ≠ none)

/-- What is found matches what was announced: a link that can be read has a target of the
announced size, and what is neither a file nor a link announced nothing. -/
def Announced (now : SourceNow) (item : DirectoryItem) : Prop :=
  match item.kind with
  | .directoryFile => True
  | .directorySymlink => ∀ target, now.target = some target →
      target.length = item.payloadSize.toNat
  | _ => item.payloadSize = 0

/-- What a read for at most the missing bytes gives. -/
def chunkAt (read : Nat → Nat → Bytes) (position missing : Nat) : Bytes :=
  (read position (min missing kChunkBytes)).take (min missing kChunkBytes)

/-- The reads give some bytes one after the other, until nothing is missing. -/
inductive Supplies (read : Nat → Nat → Bytes) : Nat → Nat → Prop where
  | complete (position : Nat) : Supplies read position 0
  | chunk {position missing : Nat} (incomplete : missing ≠ 0)
      (more : chunkAt read position missing ≠ [])
      (later : Supplies read (position + (chunkAt read position missing).length)
        (missing - (chunkAt read position missing).length)) :
      Supplies read position missing

/-- What is found is enough for the item: the file can be opened and supplies what was
announced, or the link can be read. -/
def Sendable (now : SourceNow) (item : DirectoryItem) : Prop :=
  match item.kind with
  | .directoryFile => ∃ read, now.input = some read ∧ Supplies read 0 item.payloadSize.toNat
  | .directorySymlink => now.target ≠ none
  | _ => True

/-- The item's turn comes: what was found for those before it was enough. -/
def Reached (source : Nat → Path → SourceNow) (items : List DirectoryItem) (index : Nat) : Prop :=
  ∀ earlier < index, ∀ item, items[earlier]? = some item →
    Sendable (source earlier item.source) item

theorem sendReads_eq (read : Nat → Nat → Bytes) (position missing : Nat) :
    sendReads read position missing =
      if missing = 0 then ([], none)
      else if chunkAt read position missing = [] then ([], some inputEnded)
      else
        (chunkAt read position missing ++
          (sendReads read (position + (chunkAt read position missing).length)
            (missing - (chunkAt read position missing).length)).1,
          (sendReads read (position + (chunkAt read position missing).length)
            (missing - (chunkAt read position missing).length)).2) := by
  rw [sendReads]
  simp only [dite_eq_ite, List.length_eq_zero_iff]
  rfl

theorem length_chunkAt_le (read : Nat → Nat → Bytes) (position missing : Nat) :
    (chunkAt read position missing).length ≤ missing :=
  (List.length_take_le _ _).trans (Nat.min_le_left _ _)

/-- The loop over a file sends what is missing, or fails. -/
theorem sendReads_length {read : Nat → Nat → Bytes} {position missing : Nat}
    (supplies : Supplies read position missing) :
    (sendReads read position missing).2 = none ∧
      (sendReads read position missing).1.length = missing := by
  induction supplies with
  | complete position =>
    rw [sendReads_eq, if_pos rfl]
    exact ⟨rfl, rfl⟩
  | @chunk position missing incomplete more later inductionHypothesis =>
    obtain ⟨sent, length⟩ := inductionHypothesis
    rw [sendReads_eq, if_neg incomplete, if_neg more]
    refine ⟨sent, ?_⟩
    rw [List.length_append, length]
    exact Nat.add_sub_cancel' (length_chunkAt_le read position missing)

theorem supplies_of_sendReads {read : Nat → Nat → Bytes} {position missing : Nat}
    (sent : (sendReads read position missing).2 = none) : Supplies read position missing := by
  induction missing using Nat.strong_induction_on generalizing position with
  | _ missing inductionHypothesis =>
    rw [sendReads_eq] at sent
    split at sent
    · rename_i complete
      rw [complete]
      exact .complete position
    · rename_i incomplete
      split at sent
      · cases sent
      · rename_i more
        have fewer : missing - (chunkAt read position missing).length < missing :=
          Nat.sub_lt (Nat.pos_of_ne_zero incomplete) (List.length_pos_iff.mpr more)
        exact .chunk incomplete more (inductionHypothesis _ fewer sent)

/-- An item is sent without an exception exactly if what is found is enough. -/
theorem payloadNow_eq_none_iff {now : SourceNow} {item : DirectoryItem} :
    (payloadNow now item).2 = none ↔ Sendable now item := by
  unfold payloadNow Sendable
  cases item.kind with
  | directoryFile =>
    cases now.input with
    | none => simp
    | some read =>
      simp only [Option.some.injEq, exists_eq_left']
      exact ⟨supplies_of_sendReads, fun supplies => (sendReads_length supplies).1⟩
  | directorySymlink =>
    cases now.target with
    | none => simp
    | some target => simp
  | _ => exact iff_of_true rfl trivial

/-- An item that could be sent is followed by what it announced exactly if what was found
matches. -/
theorem payloadNow_length_iff {now : SourceNow} {item : DirectoryItem}
    (sent : (payloadNow now item).2 = none) :
    (payloadNow now item).1.length = item.payloadSize.toNat ↔ Announced now item := by
  have nothing : (0 : Nat) = item.payloadSize.toNat ↔ item.payloadSize = 0 := by
    rw [← UInt64.toNat_inj, eq_comm]
    rfl
  unfold payloadNow at sent ⊢
  unfold Announced
  cases kind : item.kind with
  | directoryFile =>
    simp only [kind] at sent ⊢
    cases input : now.input with
    | none =>
      rw [input] at sent
      cases sent
    | some read =>
      rw [input] at sent
      exact iff_of_true (sendReads_length (supplies_of_sendReads sent)).2 trivial
  | directorySymlink =>
    simp only [kind] at sent ⊢
    cases target : now.target with
    | none =>
      rw [target] at sent
      cases sent
    | some text =>
      refine ⟨fun same other isTarget => ?_, fun same => same text rfl⟩
      injection isTarget with isTarget
      rw [← isTarget]
      exact same
  | _ => exact nothing

/-- An item that could not be sent announced nothing wrong. -/
theorem announced_of_error {now : SourceNow} {item : DirectoryItem} {error : Error}
    (failed : (payloadNow now item).2 = some error) : Announced now item := by
  unfold payloadNow at failed
  unfold Announced
  cases kind : item.kind with
  | directoryFile => trivial
  | directorySymlink =>
    intro target found
    simp only [kind, found] at failed
    cases failed
  | _ =>
    simp only [kind] at failed
    cases failed

/-- One item in front: it is framed, and if it could be sent, so is the rest. -/
theorem framed_cons_iff (source : Nat → Path → SourceNow) (item : DirectoryItem)
    (rest : List DirectoryItem) :
    Framed source (item :: rest) ↔ Announced (source 0 item.source) item ∧
      (Sendable (source 0 item.source) item →
        Framed (fun turn => source (turn + 1)) rest) := by
  rw [← payloadNow_eq_none_iff]
  unfold Framed
  rw [sendItems]
  cases failed : (payloadNow (source 0 item.source) item).2 with
  | some error =>
    refine ⟨fun _ => ⟨announced_of_error failed, fun sent => (by cases sent)⟩, fun _ => ?_⟩
    intro index segment found
    cases index with
    | zero => exact .inr ⟨rfl, by simp⟩
    | succ index => simp at found
  | none =>
    simp only [forall_const]
    rw [← payloadNow_length_iff failed]
    constructor
    · intro framed
      refine ⟨?_, fun index segment found => ?_⟩
      · rcases framed 0 (item, _) rfl with same | ⟨last, error⟩
        · exact same
        · -- Only a later item can have failed.
          rw [List.length_cons, Nat.zero_add, eq_comm, Nat.add_eq_right,
            List.length_eq_zero_iff] at last
          cases rest with
          | nil => exact absurd rfl error
          | cons next others =>
            rw [sendItems] at last
            split at last <;> simp at last
      · rcases framed (index + 1) segment (by simpa using found) with same | ⟨last, error⟩
        · exact .inl same
        · exact .inr ⟨by simpa using last, error⟩
    · rintro ⟨same, framed⟩ index segment found
      cases index with
      | zero =>
        rw [List.getElem?_cons_zero, Option.some.injEq] at found
        rw [← found]
        exact .inl same
      | succ index =>
        rw [List.getElem?_cons_succ] at found
        rcases framed index segment found with same | ⟨last, error⟩
        · exact .inl same
        · exact .inr ⟨by simpa using last, error⟩

/-- The framing survives a change of the source exactly if every item whose turn comes finds
what it announced: a link's target has kept its length, and what has no payload announced
none. -/
theorem framed_iff (source : Nat → Path → SourceNow) (items : List DirectoryItem) :
    Framed source items ↔ ∀ (index : Nat) (item : DirectoryItem), items[index]? = some item →
      Reached source items index → Announced (source index item.source) item := by
  induction items generalizing source with
  | nil => simp [Framed, sendItems]
  | cons first rest inductionHypothesis =>
    rw [framed_cons_iff, inductionHypothesis]
    constructor
    · rintro ⟨announced, later⟩ index item found reached
      cases index with
      | zero =>
        rw [List.getElem?_cons_zero, Option.some.injEq] at found
        rw [← found]
        exact announced
      | succ index =>
        rw [List.getElem?_cons_succ] at found
        refine later (reached 0 (Nat.succ_pos _) first rfl) index item found ?_
        intro earlier before other there
        exact reached (earlier + 1) (Nat.succ_lt_succ before) other (by simpa using there)
    · intro all
      refine ⟨all 0 first rfl fun earlier before => absurd before (Nat.not_lt_zero _), ?_⟩
      intro sent index item found reached
      refine all (index + 1) item (by simpa using found) ?_
      intro earlier before other there
      cases earlier with
      | zero =>
        rw [List.getElem?_cons_zero, Option.some.injEq] at there
        rw [← there]
        exact sent
      | succ earlier =>
        exact reached earlier (Nat.lt_of_succ_lt_succ before) other (by simpa using there)

/-- The items of a directory with one link, as they were collected. -/
def collectedLink : List DirectoryItem :=
  collectDirectoryItems (Path.parse (ascii "d"))
    [(Path.parse (ascii "d"), .directory 0o755), (Path.parse (ascii "d/l"), .symlink (ascii "old"))]

/-- The same directory at the time of sending: the link has a longer target. -/
def retargeted (_turn : Nat) : Path → SourceNow :=
  sourceOf [(Path.parse (ascii "d"), .directory 0o755),
    (Path.parse (ascii "d/l"), .symlink (ascii "newer"))]

/-- Three bytes are announced and five are sent. -/
theorem retargeted_misframed : ¬ Framed retargeted collectedLink := by
  intro framed
  have sent : (sendItems retargeted collectedLink).1[1]? =
      some (⟨.directorySymlink, Path.parse (ascii "d/l"), ascii "d/l", 3, 0⟩, ascii "newer") := by
    decide +kernel
  have fine : (sendItems retargeted collectedLink).2 = none := by
    decide +kernel
  rcases framed 1 _ sent with same | ⟨-, error⟩
  · exact absurd same (by decide)
  · exact error fine

end HyperLink
