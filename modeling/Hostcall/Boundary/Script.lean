import Hostcall.Boundary.Access

/-!
# What a foreign host does

A foreign host makes requests and accesses one after the other, and whatever else it does when it
is told of an error in the midst of a request. `Script` is all this as data, and `Script.play`
carries it out. Whether a request is made in a callback, and in which one, shows in the calls that
are in progress at that time.
-/

namespace Hostcall

/-- What a foreign host does. -/
inductive Script where
  | done
  /-- A request, what the host does if it is told of an error meanwhile, and what it does next. -/
  | request (r : Request) (aside rest : Script)
  /-- An access to the context of the innermost call, and what the host does next. -/
  | access (given : Bool) (a : Access) (rest : Script)

/-- Carries out what a host does. -/
def Script.play : Script → Boundary → Boundary
  | .done, b => b
  | .request r aside rest, b => rest.play (b.callWith aside.play r).2
  | .access given a rest, b => rest.play (b.access given a).2

end Hostcall
