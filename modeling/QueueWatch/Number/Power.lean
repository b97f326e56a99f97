/-!
# Powers of numbers

Algebra brings a second notion of powers of natural numbers, which is preferred where it is known.
Here powers are those of the core library everywhere, so that a statement about them means the same
in modules that know the algebra and in those that do not.
-/

attribute [instance (20000), default_instance 20000] instPowNat
