import CircuitPicture.IoError

/-! # Writers

What texts can be written to. A writer works on a state of its own, which a failing call also leaves
behind. -/

namespace CircuitPicture

structure Writer (σ : Type) where
  write : String → ExceptT IoError (StateM σ) Unit
  flush : ExceptT IoError (StateM σ) Unit

end CircuitPicture
