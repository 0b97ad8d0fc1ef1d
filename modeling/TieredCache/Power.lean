/-!
# Powers

The power of a whole number is the one of the core library, also where a theory of monoids is at hand.
-/

attribute [instance] instPowNat instNatPowNat Int.instNatPow
attribute [default_instance 20000] instPowNat
