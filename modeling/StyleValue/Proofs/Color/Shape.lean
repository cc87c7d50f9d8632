import Mathlib.Data.List.TakeWhile
import StyleValue.Color.Parser

/-!
# The shapes of channels

Commas and white space separate channels alike. Alpha is the last value, or what follows the slash
after the channels; values of any other shape are refused.
-/

set_option autoImplicit false

namespace StyleValue

open ComponentValue

section Separation

variable {count : Nat} {values before after : List ComponentValue} {slash alpha : ComponentValue}

end Separation

section Shape

variable {values : List ComponentValue} {split : ChannelValues}

end Shape

section Alpha

variable {x y z slash alpha : ComponentValue} {vs ws : List ComponentValue}

end Alpha

end StyleValue
