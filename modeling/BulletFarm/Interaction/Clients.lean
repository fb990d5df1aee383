import BulletFarm.Interaction.Environment

/-!
# Programs whose caller is known

The calls of a client carry its name, so that a world may remember what it has given to
which client.
-/

namespace Interaction

set_option autoImplicit false

variable {ι Op α : Type} {Resp : Op → Type}

/-- The answers to the calls of clients. -/
abbrev ClientResp (ι : Type) (Resp : Op → Type) : ι × Op → Type := fun o => Resp o.2

namespace Program

/-- The program with every call in the name of the client. -/
def signed (i : ι) : Program Op Resp α → Program (ι × Op) (ClientResp ι Resp) α
  | .ret a => .ret a
  | .call o next => .call (i, o) fun r => (next r).signed i

end Program

end Interaction
