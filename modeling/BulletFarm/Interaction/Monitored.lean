import BulletFarm.Interaction.Environment
import BulletFarm.Interaction.Monitor

/-!
# Pools whose threads are monitored

Each thread keeps to a monitor of its own. What the monitor of a thread has come to know
about the world stays true while the others go on; then an invariant of the world need only
be kept by the calls that the monitors allow.
-/

namespace Interaction

set_option autoImplicit false

variable {Op : Type} {Resp : Op → Type} {α W M ι : Type}

end Interaction
