import CeedQFunction.Spec.Tensor
import CeedQFunction.Spec.NeoHookean
import CeedQFunction.Spec.Kernel
import CeedQFunction.Proofs.Buffers
import CeedQFunction.Proofs.Bounds
import CeedQFunction.Proofs.Contract
import CeedQFunction.Proofs.Mass
import CeedQFunction.Proofs.Strain
import CeedQFunction.Proofs.Log1p
import CeedQFunction.Proofs.Tangent
import CeedQFunction.Proofs.MatDeriv
import CeedQFunction.Proofs.Gradient
import CeedQFunction.Proofs.Energy
import CeedQFunction.Proofs.Objectivity
import CeedQFunction.Proofs.KernelOutputs
import CeedQFunction.Proofs.Assembly
