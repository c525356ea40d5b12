import LibTransmission.BlockInfo
import LibTransmission.FileLayout
import LibTransmission.Webseed.ConnectionLimiter
import LibTransmission.Webseed.Task
import LibTransmission.Webseed.Drain
import LibTransmission.Webseed.TaskRun
import LibTransmission.Webseed.Delivery
import LibTransmission.Webseed.Requests
import LibTransmission.Webseed.Session
import LibTransmission.Webseed.SessionInv
import LibTransmission.Webseed.Backoff
import LibTransmission.Webseed.Simulation
import LibTransmission.Webseed.Outcomes
import LibTransmission.Webseed.Teardown
import LibTransmission.Webseed.Integrity
import LibTransmission.Webseed.ErrorPages
import LibTransmission.Net.Address
import LibTransmission.Net.SocketAddress
import LibTransmission.Net.Compare
