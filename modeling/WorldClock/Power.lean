/-!
# Powers

A power of a natural number or an integer is the one of the core library in every module, whatever
else a module imports. Other instances of `Pow` come after it.
-/

attribute [instance (high), default_instance high] instPowNat
