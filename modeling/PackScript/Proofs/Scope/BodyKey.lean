import PackScript.Proofs.Generation.SpecializationKeys

/-! # Keys of generated bodies

A key tells what the body of a function depends on: the static arguments of the call and what the
body sees, which names declared functions by their identities.
-/
namespace PackScript

/-- What a generated body depends on. -/
structure BodyKey where
  arguments : List Value
  seen : List Observation

namespace BodyKey

def text (K : BodyKey) : Bytes :=
  Bytes.join "," (K.arguments.map Value.tagged ++ K.seen.map Observation.render)

/-- The key can be read off its text. -/
structure Worded (K : BodyKey) : Prop where
  arguments : ∀ v ∈ K.arguments, v.Settled
  seen : ∀ o ∈ K.seen, o.Worded

end BodyKey

end PackScript
