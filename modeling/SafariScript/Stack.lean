/-!
# The stack

Reading, showing and running a program all go down into nested parts of it, and every step down takes
frames of a stack of bounded size. What is nested too deeply for the stack is refused.
-/

namespace SafariScript

/-- The frames of the stack. -/
def stackRoom : Nat := 985

end SafariScript
