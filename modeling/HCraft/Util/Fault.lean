/-!
This module contains the ways in which the program has undefined behaviour, or is terminated.
-/

namespace HCraft

inductive Fault where
  | readOutside -- a read outside of a block
  | writeOutside -- a write outside of a block
  | uninitialised -- a use of a variable that was never set
  | useAfterFree -- a use of a block after its `delete[]`
  | noProgress -- a cursor that moves backwards or stays where it is
  | wrappedSize -- an allocation or a copy of a size that is negative or has wrapped around
  | nullPointer -- a use of a null pointer
  | typeConfusion -- a use of an object as one of another type
  | uncaught -- an exception that nobody catches
  | divisionByZero
  deriving DecidableEq, Repr

end HCraft
