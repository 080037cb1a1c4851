/-!
# Throwables

The throwables that the modelled methods raise or catch, and the two catch
clauses the sources use: `catch (Exception e)` and `catch (IOException e)`.
A method that may throw returns in `Except Throwable`. A recursive method takes
the depth of the call stack that is left to it, and raises
`Throwable.stackOverflow` when none is; so a method that never comes back is
one that raises it at every depth.
-/

namespace HelloBoot

inductive Throwable where
  | nullPointer
  | illegalArgument (message : String)
  | numberFormat
  | indexOutOfBounds
  | negativeArraySize
  | classCast
  | ioException
  | interrupted
  | rejectedExecution
  | runtime (cause : Throwable)
  | unchecked
  | stackOverflow
  | error
  deriving DecidableEq, Repr

namespace Throwable

/-- Caught by `catch (Exception e)`: everything but the errors. -/
def isException : Throwable → Bool
  | stackOverflow | error => false
  | _ => true

def isIOException : Throwable → Bool
  | ioException => true
  | _ => false

end Throwable

end HelloBoot
